import BytecodeDebugger.Debugger.Stepping
import BytecodeDebugger.Stepper.Basic

/-!
# Operations

The requests that change a debuggee, a debugger or a stepper, as data. A history of use is a list of
operations, and what holds after every history is stated over such lists.
-/

namespace BytecodeDebugger

/-- The requests to a debuggee. -/
inductive VmOperation where
  | load (program : Program)
  | call (name : String) (args : Array Int32)
  | resume
  | setStepping (on : Bool)
  | setHandler
  | clearHandler

/-- The requests to a debugger. -/
inductive DebuggerOperation where
  | load (program : Program)
  | set (place : Location)
  | remove (place : Location)
  | setLine (line : SourceLine)
  | removeLine (line : SourceLine)
  | patch (place : Location)
  | restoreFrame (frame : FrameInfo)
  | rearm (frame : FrameInfo)
  | rearmAll
  | call (name : String) (args : Array Int32)
  | stepInto
  | stepNext
  | proceed
  | pause

/-- The requests to a stepper. -/
inductive StepperOperation where
  | load (program : Program)
  | set (place : Location)
  | remove (place : Location)
  | call (name : String) (args : Array Int32)
  | start (command : Command)
  | pause

/-- The answer to an operation. -/
inductive Reply where
  /-- Nothing but that it was served. -/
  | done
  /-- The program was loaded under this identity. -/
  | loaded (id : ProgramId)
  /-- A run request ended so. -/
  | stopped (stop : Stop)
  /-- A stepping command ended so. -/
  | stepped (outcome : StepOutcome)
  /-- Yes or no. -/
  | flag (value : Bool)
  /-- The location of a source line, if it has code. -/
  | placed (place : Option Location)
  /-- The debuggee did not serve it. -/
  | runFailed (error : RunError)
  /-- The debugger did not serve it. -/
  | failed (error : DebugError)
  /-- There is no such operation here. -/
  | unavailable
  deriving DecidableEq

namespace Reply

/-- The reply to a run request of a debuggee. -/
def ofRun {α : Type} (served : α → Reply) : Except RunError α → Reply
  | .ok a => served a
  | .error error => .runFailed error

/-- The reply to a request to a debugger. -/
def ofDebug {α : Type} (served : α → Reply) : Except DebugError α → Reply
  | .ok a => served a
  | .error error => .failed error

end Reply

/-- Serves a request to a debuggee; no answer means that it is a run request without one. -/
def Debuggee.perform (fuel : Nat) (vm : Debuggee) : VmOperation → Option (Reply × Debuggee)
  | .load program => let (id, vm) := vm.load program; some (.loaded id, vm)
  | .call name args =>
    (vm.call fuel name args).map fun (answer, vm) => (Reply.ofRun .stopped answer, vm)
  | .resume => (vm.resume fuel).map fun (answer, vm) => (Reply.ofRun .stopped answer, vm)
  | .setStepping on => some (.done, vm.setStepping on)
  | .setHandler => let (answer, vm) := vm.setHandler; some (Reply.ofRun (fun _ => .done) answer, vm)
  | .clearHandler => some (.done, vm.clearHandler)

/-- Serves a request to a debugger; no answer means that a run request of it had none. -/
def Debugger.perform (fuel : Nat) (d : Debugger) : DebuggerOperation → Option (Reply × Debugger)
  | .load program => let (id, d) := d.load program; some (.loaded id, d)
  | .set place => some (.done, d.set place)
  | .remove place => some (.done, d.remove place)
  | .setLine line => let (place, d) := d.setLine line; some (.placed place, d)
  | .removeLine line => some (.done, d.removeLine line)
  | .patch place => let (applied, d) := d.patch place; some (.flag applied, d)
  | .restoreFrame frame => let (restored, d) := d.restoreFrame frame; some (.flag restored, d)
  | .rearm frame => some (.done, d.rearm frame)
  | .rearmAll => some (.done, d.rearmAll)
  | .call name args =>
    (d.call fuel name args).map fun (answer, d) => (Reply.ofDebug .stopped answer, d)
  | .stepInto => (d.stepInto fuel).map fun (answer, d) => (Reply.ofDebug .stepped answer, d)
  | .stepNext => (d.stepNext fuel).map fun (answer, d) => (Reply.ofDebug .stepped answer, d)
  | .proceed => (d.proceed fuel).map fun (answer, d) => (Reply.ofDebug .stepped answer, d)
  | .pause => some (.done, d.pause)

/-- Serves a request to a stepper; no answer means that a run request of it had none, or that the
bound was reached. -/
def Stepper.perform (fuel : Nat) (s : Stepper) : StepperOperation → Option (Reply × Stepper)
  | .load program => some (.done, s.load program)
  | .set place => some (.done, s.set place)
  | .remove place => some (.done, s.remove place)
  | .call name args =>
    (s.call fuel name args).map fun (answer, s) => (Reply.ofDebug .stopped answer, s)
  | .start command => (s.start fuel command).map fun (answer, s) => (Reply.ofDebug .flag answer, s)
  | .pause => some (.done, s.pause)

end BytecodeDebugger
