import BytecodeDebugger.Machine.Step

/-!
# The program under control

A debuggee holds a loaded program and the machine that executes it. A run request, `call` or
`resume`, executes instructions until the machine halts, and is answered by how it halted. One
consumer can be registered for the halts; it hears of each run request exactly once.

## Implementation notes

In stepping mode a run request executes one instruction, so it needs no bound. Otherwise `fuel`
bounds the number of instructions. A request without an answer reached the bound, or one of its
instructions stopped the process.

A fault ends the call: the frames are dropped, the operand stack stays as the fault left it.
-/

namespace BytecodeDebugger

/-- Why a run request was not served to its end. -/
inductive RunError where
  /-- No program is loaded. -/
  | noProgram
  /-- No routine is exported under the name. -/
  | unknownFunction (name : String)
  /-- There is no halted call to resume. -/
  | notPaused
  /-- A call is halted and must end before the next one. -/
  | alreadyRunning
  /-- Another consumer of halts is registered. -/
  | handlerTaken
  /-- The instruction at this place failed. -/
  | fault (place : Location) (kind : Fault)
  deriving DecidableEq

namespace RunError

/-- The wording of a run error. -/
def message : RunError → String
  | .noProgram => "No module is loaded"
  | .unknownFunction name => s!"Unknown function: {name}"
  | .notPaused => "The vm is not paused"
  | .alreadyRunning => "The vm is paused inside a call, resume it instead"
  | .handlerTaken => "A break handler is registered already"
  | .fault place kind =>
    s!"Runtime fault in function {place.function} at {place.address}: {kind.message}"

end RunError

/-- Where the execution of a call stands. -/
inductive RunState where
  /-- Nothing was called since the program was loaded. -/
  | notStarted
  /-- A call is halted and can be resumed. -/
  | paused
  /-- A run request is being served. -/
  | running
  /-- The last call ended. -/
  | finished
  deriving DecidableEq, Inhabited

namespace RunState

/-- The name of a run state. -/
def text : RunState → String
  | .notStarted => "NotStarted"
  | .paused => "Paused"
  | .running => "Running"
  | .finished => "Finished"

end RunState

/-- How a served run request ended. -/
inductive Stop where
  /-- The call is halted. -/
  | paused
  /-- The call returned this value. -/
  | finished (value : Int32)
  deriving DecidableEq

/-- What the consumer of halts hears of a run request. -/
inductive HaltEvent where
  /-- The call is halted at this place. -/
  | paused (frame : FrameInfo)
  /-- The call returned this value. -/
  | finished (value : Int32)
  /-- The call failed. -/
  | faulted (error : RunError)
  deriving DecidableEq

/-- A loaded program and the state of its execution. -/
structure Debuggee where
  program : Option Program := none
  /-- The identity of the loaded program. -/
  programId : ProgramId := ⟨0⟩
  /-- The identity of the program that is loaded next. -/
  nextId : ProgramId := ⟨0⟩
  machine : Machine := {}
  /-- Whether a run request executes one instruction only. -/
  stepping : Bool := false
  state : RunState := .notStarted
  /-- The value that the last finished call returned. -/
  returnValue : Int32 := 0
  /-- Whether a consumer of halts is registered. -/
  hasHandler : Bool := false
  /-- The halts that a consumer heard of, the oldest first. -/
  halts : Array HaltEvent := #[]
  deriving DecidableEq, Inhabited

namespace Debuggee

/-- Whether a call is halted. -/
def isPaused (vm : Debuggee) : Bool :=
  vm.state == .paused

/-- The number of frames. -/
def depth (vm : Debuggee) : Nat :=
  vm.machine.frames.length

/-- The place of a frame, counted from the innermost one. -/
def frameInfo? (vm : Debuggee) (depth : Nat) : Option FrameInfo :=
  vm.machine.frames[depth]?.map fun frame => ⟨vm.programId, frame.function, frame.pc⟩

/-- The memory of a frame, counted from the innermost one. -/
def frameMemory? (vm : Debuggee) (depth : Nat) : Option Memory :=
  vm.machine.frames[depth]?.map (·.memory)

/-- Switches stepping mode. -/
def setStepping (vm : Debuggee) (on : Bool) : Debuggee :=
  { vm with stepping := on }

/-- Registers the consumer of halts, if there is none. -/
def setHandler (vm : Debuggee) : Except RunError Unit × Debuggee :=
  if vm.hasHandler then (.error .handlerTaken, vm) else (.ok (), { vm with hasHandler := true })

/-- Removes the consumer of halts. -/
def clearHandler (vm : Debuggee) : Debuggee :=
  { vm with hasHandler := false }

/-- Replaces the loaded program and drops any call. -/
def load (vm : Debuggee) (program : Program) : ProgramId × Debuggee :=
  (vm.nextId,
    { vm with
      program := some program
      programId := vm.nextId
      nextId := vm.nextId.succ
      machine := {}
      state := .notStarted })

/-- Displaces an instruction of the loaded program by a trap. The answer says whether the trap was
put there now. -/
def patch (vm : Debuggee) (place : Location) : Bool × Debuggee :=
  match vm.program with
  | none => (false, vm)
  | some program =>
    let (applied, program) := program.patch place
    (applied, { vm with program := some program })

/-- Puts a displaced instruction of the loaded program back. The answer says whether there was
one. -/
def restore (vm : Debuggee) (place : Location) : Bool × Debuggee :=
  match vm.program with
  | none => (false, vm)
  | some program =>
    let (restored, program) := program.restore place
    (restored, { vm with program := some program })

/-- Tells the consumer of halts, if there is one. -/
def deliver (vm : Debuggee) (event : HaltEvent) : Debuggee :=
  if vm.hasHandler then { vm with halts := vm.halts.push event } else vm

/-- Ends a run request with a value. -/
def finish (vm : Debuggee) (value : Int32) (stack : Operands) : Except RunError Stop × Debuggee :=
  (.ok (.finished value),
    { vm with
      machine := { stack }
      state := .finished
      returnValue := value }.deliver (.finished value))

/-- Ends a run request with an error. -/
def fail (vm : Debuggee) (error : RunError) (stack : Operands) : Except RunError Stop × Debuggee :=
  (.error error, { vm with machine := { stack }, state := .finished }.deliver (.faulted error))

/-- Ends a run request in a machine that can go on. -/
def halt (vm : Debuggee) (machine : Machine) : Except RunError Stop × Debuggee :=
  match machine.location? with
  | none => vm.finish vm.returnValue machine.stack
  | some place =>
    (.ok .paused,
      { vm with machine, state := .paused }.deliver
        (.paused ⟨vm.programId, place.function, place.address⟩))

/-- Ends a run request as its last instruction says. -/
def settle (vm : Debuggee) : Transition → Except RunError Stop × Debuggee
  | .moved machine => vm.halt machine
  | .trapped machine => vm.halt machine
  | .finished value stack => vm.finish value stack
  | .faulted place kind stack => vm.fail (.fault place kind) stack
  | .idle stack => vm.finish vm.returnValue stack

/-- Serves a run request. -/
def run (fuel : Nat) (vm : Debuggee) : Option (Except RunError Stop × Debuggee) :=
  let running := { vm with state := .running }
  match running.program with
  | none => some (running.fail .noProgram running.machine.stack)
  | some program =>
    (if running.stepping then running.machine.step program
      else running.machine.run program fuel).map running.settle

/-- Calls an exported routine, with the arguments as the memory of its frame. -/
def call (fuel : Nat) (name : String) (args : Array Int32) (vm : Debuggee) :
    Option (Except RunError Stop × Debuggee) :=
  if vm.isPaused then
    some (.error .alreadyRunning, vm)
  else
    match vm.program with
    | none => some (.error .noProgram, vm)
    | some program =>
      match (program.lookup? name).filter fun index => (program.routine? index).isSome with
      | none => some (.error (.unknownFunction name), vm)
      | some function => run fuel { vm with machine := Machine.start function args }

/-- Resumes a halted call. -/
def resume (fuel : Nat) (vm : Debuggee) : Option (Except RunError Stop × Debuggee) :=
  if vm.isPaused then run fuel vm else some (.error .notPaused, vm)

end Debuggee

end BytecodeDebugger
