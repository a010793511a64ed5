import BytecodeDebugger.Machine.Fault

/-!
# The operand stack

One stack of integers serves all frames of a call. The operands of a frame start at its base, and
nothing below the base can be read or removed by the frame.

## Implementation notes

A process counts operands with words of 64 bits. Only calls add numbers that a program can choose
freely, so only a split can leave the words. A process either checks its sums and differences or lets
them wrap around, which is decided when it is built. A split without an answer stops the process:
by a check, or at a position that lies beyond the end of the stack.

The operations that can fail are inlined, so that the branch on their answer meets the branch within
them and the stack is changed in place.
-/

namespace BytecodeDebugger

/-- How a process computes with words of 64 bits. -/
inductive WordArithmetic where
  /-- A result that is not a word stops the process. -/
  | checked
  /-- Results are taken modulo the number of words. -/
  | wrapping
  deriving DecidableEq

namespace WordArithmetic

/-- The number of words. -/
def limit : Nat :=
  0x10000000000000000

/-- The sum of two words. -/
@[inline]
def add : WordArithmetic → Nat → Nat → Option Nat
  | .checked, a, b => if a + b < limit then some (a + b) else none
  | .wrapping, a, b => some ((a + b) % limit)

/-- The difference of two words. -/
@[inline]
def sub : WordArithmetic → Nat → Nat → Option Nat
  | .checked, a, b => if b ≤ a then some (a - b) else none
  | .wrapping, a, b => some ((a + (limit - b)) % limit)

end WordArithmetic

/-- The operand stack, with its top at the end. -/
structure Operands where
  values : Array Int32 := #[]
  deriving DecidableEq, Inhabited

namespace Operands

/-- The number of operands. -/
def size (s : Operands) : Nat :=
  s.values.size

/-- The topmost operand. -/
def top? (s : Operands) : Option Int32 :=
  s.values.back?

/-- Puts an operand on top. -/
def push (s : Operands) (value : Int32) : Operands :=
  ⟨s.values.push value⟩

/-- Removes the topmost operand, if it lies above the base. -/
@[inline]
def pop (s : Operands) (base : Nat) : Except Fault (Int32 × Operands) :=
  if h : base < s.values.size then
    .ok (s.values.back (Nat.zero_lt_of_lt h), ⟨s.values.pop⟩)
  else
    .error .stackUnderflow

/-- The topmost operand, if it lies above the base. -/
def peek (s : Operands) (base : Nat) : Except Fault Int32 :=
  if h : base < s.values.size then
    .ok (s.values.back (Nat.zero_lt_of_lt h))
  else
    .error .stackUnderflow

/-- Removes so many topmost operands, if all of them lie above the base, and returns them in the
order in which they were pushed. No answer means that the process was stopped. -/
@[inline]
def split (arithmetic : WordArithmetic) (s : Operands) (base n : Nat) :
    Option (Except Fault (Array Int32 × Operands)) :=
  match arithmetic.add base n with
  | none => none
  | some needed =>
    if s.values.size < needed then
      some (.error .stackUnderflow)
    else
      match arithmetic.sub s.values.size n with
      | none => none
      | some start =>
        if start ≤ s.values.size then
          some (.ok (s.values.extract start s.values.size, ⟨s.values.shrink start⟩))
        else
          none

end Operands

end BytecodeDebugger
