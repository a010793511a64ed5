import BytecodeDebugger.Machine.Execute
import BytecodeDebugger.Program.Basic

/-!
# The machine

A machine is a stack of frames, the innermost first, over one operand stack. `step` executes one
instruction of a program; `run` executes instructions until one of them does not move on.

## Implementation notes

The machine executes the live instructions of the program it is given, traps included. Execution
without a debugger is therefore `step` over the program with its displaced instructions put back.
A caller waits on its call instruction and moves past it when the callee returns.

A process that has to compute a number that is not a word is stopped. `stepIn` says so for either
way of computing; the machine itself is a process that checks its results.

`run` has a bound on the number of instructions. No answer means that the bound was reached, which
says nothing about the program, or that the process was stopped.
-/

namespace BytecodeDebugger

/-- The frames of a call, the innermost first, and their operand stack. -/
structure Machine where
  frames : List Frame := []
  stack : Operands := {}
  deriving DecidableEq, Inhabited

/-- What became of a machine by one instruction. -/
inductive Transition where
  /-- The instruction was executed. -/
  | moved (machine : Machine)
  /-- The instruction is a trap. -/
  | trapped (machine : Machine)
  /-- The outermost frame returned this value. -/
  | finished (value : Int32) (stack : Operands)
  /-- The instruction at this place failed. -/
  | faulted (place : Location) (fault : Fault) (stack : Operands)
  /-- There is no frame to execute anything in. -/
  | idle (stack : Operands)
  deriving DecidableEq

namespace Machine

/-- The machine that is about to execute a routine from its start. -/
def start (function : Nat) (args : Array Int32) : Machine :=
  { frames := [{ function, memory := ⟨args⟩, stackBase := 0 }] }

/-- The location of the innermost frame. -/
def location? (m : Machine) : Option Location :=
  m.frames.head?.map fun frame => ⟨frame.function, frame.pc⟩

/-- The live instruction at a location. -/
def fetch (program : Program) (function pc : Nat) : Except Fault Instruction :=
  match program.routine? function with
  | none => .error (.invalidFunction function)
  | some r =>
    match r.code.get? pc with
    | none => .error (.invalidCodeAddress pc)
    | some instruction => .ok instruction

/-- The routine that a call instruction names. -/
def callee? (program : Program) (index : Int) : Option (Nat × Routine) :=
  if 0 ≤ index then (program.routine? index.toNat).map fun r => (index.toNat, r) else none

/-- Enters a routine with the operands that were split off for it. -/
@[inline]
def enterWith (function : Nat) (frame : Frame) (callers : List Frame) (stack : Operands) :
    Except Fault (Array Int32 × Operands) → Transition
  | .error fault => .faulted ⟨frame.function, frame.pc⟩ fault stack
  | .ok (args, rest) =>
    .moved ⟨{ function, memory := ⟨args⟩, stackBase := rest.size } :: frame :: callers, rest⟩

/-- Enters a routine, with the topmost operands as the memory of its frame. -/
def enter (arithmetic : WordArithmetic) (program : Program) (index : Int) (frame : Frame)
    (callers : List Frame) (stack : Operands) : Option Transition :=
  match callee? program index with
  | none => some (.faulted ⟨frame.function, frame.pc⟩ (.invalidFunction index) stack)
  | some (function, r) =>
    (stack.split arithmetic frame.stackBase r.argCount).map
      (enterWith function frame callers stack)

/-- Leaves a routine. The operands left on the stack are the value of the call. -/
def leave (callers : List Frame) (stack : Operands) : Transition :=
  match callers with
  | [] => .finished (stack.top?.getD 0) stack
  | caller :: rest => .moved ⟨{ caller with pc := caller.pc + 1 } :: rest, stack⟩

/-- Goes on after an instruction at a place, as its effect says. -/
def proceed (arithmetic : WordArithmetic) (program : Program) (place : Location)
    (callers : List Frame) : Effect → Option Transition
  | ⟨.error fault, _, stack⟩ => some (.faulted place fault stack)
  | ⟨.ok (.next pc), frame, stack⟩ => some (.moved ⟨{ frame with pc } :: callers, stack⟩)
  | ⟨.ok (.call index), frame, stack⟩ => enter arithmetic program index frame callers stack
  | ⟨.ok .ret, _, stack⟩ => some (leave callers stack)
  | ⟨.ok .halt, frame, stack⟩ => some (.trapped ⟨frame :: callers, stack⟩)

/-- Executes the instruction that the innermost frame stands at, in a process that computes so. No
answer means that the process was stopped. -/
def stepIn (arithmetic : WordArithmetic) (program : Program) : Machine → Option Transition
  | ⟨[], stack⟩ => some (.idle stack)
  | ⟨frame :: callers, stack⟩ =>
    let place : Location := ⟨frame.function, frame.pc⟩
    match fetch program place.function place.address with
    | .error fault => some (.faulted place fault stack)
    | .ok instruction =>
      proceed arithmetic program place callers (execute instruction frame stack)

/-- Executes the instruction that the innermost frame stands at. -/
def step (program : Program) (m : Machine) : Option Transition :=
  stepIn .checked program m

/-- Executes at most so many instructions, until one does not move on. -/
def run (program : Program) : Nat → Machine → Option Transition
  | 0, _ => none
  | fuel + 1, m =>
    match step program m with
    | some (.moved m) => run program fuel m
    | other => other

end Machine

end BytecodeDebugger
