import BytecodeDebugger.Machine.Memory
import BytecodeDebugger.Machine.Operands
import BytecodeDebugger.Program.Instruction

/-!
# Execution of one instruction

An instruction sees the current frame and the operand stack. What concerns the program or the other
frames, such as entering and leaving routines, is reported as an `Outcome`.

## Implementation notes

An `Effect` has the frame and the stack also where the instruction faults: operands popped before
the fault stay popped.
-/

namespace BytecodeDebugger

/-- An activation of a routine. -/
structure Frame where
  /-- The number of the routine. -/
  function : Nat
  /-- The address of the next instruction. -/
  pc : Nat := 0
  memory : Memory
  /-- The size of the operand stack when the frame was entered. -/
  stackBase : Nat
  deriving DecidableEq, Inhabited

/-- How execution goes on after an instruction. -/
inductive Outcome where
  /-- At another address of the routine. -/
  | next (pc : Nat)
  /-- In the routine with this number, if there is one. -/
  | call (index : Int)
  /-- In the caller. -/
  | ret
  /-- Not at all. -/
  | halt
  deriving DecidableEq

/-- What an instruction did. -/
structure Effect where
  outcome : Except Fault Outcome
  frame : Frame
  stack : Operands

namespace Execute

/-- The target of a jump, counted from the next instruction, as a signed word of 64 bits. -/
def jumpTarget (pc : Nat) (offset : Int32) : Except Fault Outcome :=
  let target := ((pc : Int) + 1 + offset.toInt).bmod 0x10000000000000000
  if 0 ≤ target then .ok (.next target.toNat) else .error (.invalidCodeAddress target)

/-- The machine's form of a truth value. -/
def ofBool (b : Bool) : Int32 :=
  if b then 1 else 0

/-- Replaces the topmost operand by a function of it. -/
def unary (f : Int32 → Int32) (frame : Frame) (stack : Operands) : Effect :=
  match stack.pop frame.stackBase with
  | .error fault => ⟨.error fault, frame, stack⟩
  | .ok (a, stack) => ⟨.ok (.next (frame.pc + 1)), frame, stack.push (f a)⟩

/-- Replaces the two topmost operands, the upper one last, by a function of them. -/
def binary (f : Int32 → Int32 → Except Fault Int32) (frame : Frame) (stack : Operands) : Effect :=
  match stack.pop frame.stackBase with
  | .error fault => ⟨.error fault, frame, stack⟩
  | .ok (b, stack) =>
    match stack.pop frame.stackBase with
    | .error fault => ⟨.error fault, frame, stack⟩
    | .ok (a, stack) =>
      match f a b with
      | .error fault => ⟨.error fault, frame, stack⟩
      | .ok value => ⟨.ok (.next (frame.pc + 1)), frame, stack.push value⟩

/-- A function of two operands that is not defined for an upper operand of zero. -/
def division (f : Int32 → Int32 → Int32) (a b : Int32) : Except Fault Int32 :=
  if b = 0 then .error .divisionByZero else .ok (f a b)

/-- Jumps if the popped operand satisfies a condition. -/
def jumpIf (taken : Int32 → Bool) (offset : Int32) (frame : Frame) (stack : Operands) : Effect :=
  match stack.pop frame.stackBase with
  | .error fault => ⟨.error fault, frame, stack⟩
  | .ok (a, stack) =>
    ⟨if taken a then jumpTarget frame.pc offset else .ok (.next (frame.pc + 1)), frame, stack⟩

/-- Replaces an address by the value of the cell it denotes. -/
def read (offset : Int32) (frame : Frame) (stack : Operands) : Effect :=
  match stack.pop frame.stackBase with
  | .error fault => ⟨.error fault, frame, stack⟩
  | .ok (address, stack) =>
    match frame.memory.read (address.toInt + offset.toInt) with
    | .error fault => ⟨.error fault, frame, stack⟩
    | .ok value => ⟨.ok (.next (frame.pc + 1)), frame, stack.push value⟩

/-- Pops an address and sets the cell it denotes to the operand below, which stays. -/
def write (offset : Int32) (frame : Frame) (stack : Operands) : Effect :=
  match frame with
  | ⟨function, pc, memory, stackBase⟩ =>
    match stack.pop stackBase with
    | .error fault => ⟨.error fault, ⟨function, pc, memory, stackBase⟩, stack⟩
    | .ok (address, stack) =>
      match stack.peek stackBase with
      | .error fault => ⟨.error fault, ⟨function, pc, memory, stackBase⟩, stack⟩
      | .ok value =>
        match memory.write (address.toInt + offset.toInt) value with
        | .error fault => ⟨.error fault, ⟨function, pc, memory, stackBase⟩, stack⟩
        | .ok memory => ⟨.ok (.next (pc + 1)), ⟨function, pc, memory, stackBase⟩, stack⟩

/-- Pops so many operands, or all of them if there are fewer. -/
def popMany (base : Nat) : Nat → Operands → Except Fault Unit × Operands
  | 0, stack => (.ok (), stack)
  | n + 1, stack =>
    match stack.pop base with
    | .error fault => (.error fault, stack)
    | .ok (_, stack) => popMany base n stack

/-- Pops so many operands, at least one. -/
def discard (count : Int32) (frame : Frame) (stack : Operands) : Effect :=
  match popMany frame.stackBase (max count.toInt 1).toNat stack with
  | (.error fault, stack) => ⟨.error fault, frame, stack⟩
  | (.ok (), stack) => ⟨.ok (.next (frame.pc + 1)), frame, stack⟩

end Execute

open Execute in
/-- Executes an instruction in a frame. Only its memory changes there: where the frame goes on is for
the outcome to say. -/
def execute (i : Instruction) (frame : Frame) (stack : Operands) : Effect :=
  match i.op with
  | .noop => ⟨.ok (.next (frame.pc + 1)), frame, stack⟩
  | .trap => ⟨.ok .halt, frame, stack⟩
  | .read => read i.immediate frame stack
  | .write => write i.immediate frame stack
  | .push => ⟨.ok (.next (frame.pc + 1)), frame, stack.push i.immediate⟩
  | .pop => discard i.size frame stack
  | .call => ⟨.ok (.call i.immediate.toInt), frame, stack⟩
  | .ret => ⟨.ok .ret, frame, stack⟩
  | .equal => binary (fun a b => .ok (ofBool (a = b))) frame stack
  | .less => binary (fun a b => .ok (ofBool (a < b))) frame stack
  | .atMost => binary (fun a b => .ok (ofBool (a ≤ b))) frame stack
  | .jump => ⟨jumpTarget frame.pc i.immediate, frame, stack⟩
  | .jumpZero => jumpIf (fun a => a = 0) i.immediate frame stack
  | .jumpNonzero => jumpIf (fun a => a ≠ 0) i.immediate frame stack
  | .truth => unary (fun a => ofBool (a ≠ 0)) frame stack
  | .negate => unary (fun a => ofBool (a = 0)) frame stack
  | .add => binary (fun a b => .ok (a + b)) frame stack
  | .sub => binary (fun a b => .ok (a - b)) frame stack
  | .or => binary (fun a b => .ok (a ||| b)) frame stack
  | .and => binary (fun a b => .ok (a &&& b)) frame stack
  | .xor => binary (fun a b => .ok (a ^^^ b)) frame stack
  | .mul => binary (fun a b => .ok (a * b)) frame stack
  | .div => binary (division (· / ·)) frame stack
  | .mod => binary (division (· % ·)) frame stack

end BytecodeDebugger
