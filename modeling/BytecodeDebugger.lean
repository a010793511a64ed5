import BytecodeDebugger.Main
import BytecodeDebugger.Proofs.Transparency
import BytecodeDebugger.Proofs.Progress
import BytecodeDebugger.Proofs.ImageRoundTrip
import BytecodeDebugger.Proofs.Reloading
import BytecodeDebugger.Proofs.FailedRuns
import BytecodeDebugger.Proofs.Truncation
import BytecodeDebugger.Proofs.CallStack
import BytecodeDebugger.Proofs.StepperProtocol
import BytecodeDebugger.Proofs.Handover
import BytecodeDebugger.Proofs.Activity
import BytecodeDebugger.Proofs.RejectedRequests
import BytecodeDebugger.Proofs.LoadedProgram
import BytecodeDebugger.Proofs.CanonicalImages
import BytecodeDebugger.Proofs.DebuggerStops
import BytecodeDebugger.Proofs.StepOver
import BytecodeDebugger.Proofs.LineRemoval
import BytecodeDebugger.Proofs.PlanOrder
import BytecodeDebugger.Proofs.LineLookup
import BytecodeDebugger.Proofs.LimitedListings
import BytecodeDebugger.Proofs.ArgumentTransfer
import BytecodeDebugger.Proofs.PatchSets
import BytecodeDebugger.Proofs.StaleFrames
import BytecodeDebugger.Proofs.ArmedReturns
import BytecodeDebugger.Proofs.StepperTraps
import BytecodeDebugger.Proofs.MemoryHistory
import BytecodeDebugger.Proofs.Division
