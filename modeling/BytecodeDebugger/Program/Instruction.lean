/-!
# Instructions

An instruction is an opcode with two integer operands. All of them have the same shape, so that one
instruction can be put in the place of another without moving the code around it.

## Implementation notes

`Opcode.all` lists the opcodes in the order in which they are numbered. The number of an opcode and
the opcode of a number are both read off this list.
-/

namespace BytecodeDebugger

/-- The operations of the machine. Operands come from the operand stack, results go there. -/
inductive Opcode where
  /-- Does nothing. -/
  | noop
  /-- Halts without moving on. -/
  | trap
  /-- Replaces an address by the memory cell at that address plus the immediate. -/
  | read
  /-- Pops an address and writes the value below it to that address plus the immediate. -/
  | write
  /-- Pushes the immediate. -/
  | push
  /-- Discards as many values as the size says, at least one. -/
  | pop
  /-- Enters the routine numbered by the immediate. -/
  | call
  /-- Leaves the current routine. -/
  | ret
  /-- Whether two values are equal. -/
  | equal
  /-- Whether the lower value is less than the upper one. -/
  | less
  /-- Whether the lower value is at most the upper one. -/
  | atMost
  /-- Jumps by the immediate, counted from the next instruction. -/
  | jump
  /-- Jumps if the popped value is zero. -/
  | jumpZero
  /-- Jumps if the popped value is not zero. -/
  | jumpNonzero
  /-- Whether a value is not zero. -/
  | truth
  /-- Whether a value is zero. -/
  | negate
  /-- Sum, modulo the word size. -/
  | add
  /-- Difference, modulo the word size. -/
  | sub
  /-- Bitwise disjunction. -/
  | or
  /-- Bitwise conjunction. -/
  | and
  /-- Bitwise exclusive disjunction. -/
  | xor
  /-- Product, modulo the word size. -/
  | mul
  /-- Quotient, rounded toward zero. -/
  | div
  /-- Remainder, with the sign of the dividend. -/
  | mod
  deriving DecidableEq, Inhabited

namespace Opcode

/-- Every opcode, in the order in which opcodes are numbered. -/
def all : List Opcode :=
  [.noop, .trap, .read, .write, .push, .pop, .call, .ret, .equal, .less, .atMost, .jump, .jumpZero,
    .jumpNonzero, .truth, .negate, .add, .sub, .or, .and, .xor, .mul, .div, .mod]

/-- The number of an opcode. -/
def number (op : Opcode) : Nat :=
  all.idxOf op

/-- The opcode with a number, if there is one. -/
def ofNumber? (n : Nat) : Option Opcode :=
  all[n]?

/-- The name of an opcode in listings. -/
def mnemonic : Opcode → String
  | .noop => "NOOP"
  | .trap => "BREAK"
  | .read => "READ"
  | .write => "WRITE"
  | .push => "PUSH"
  | .pop => "POP"
  | .call => "CALL"
  | .ret => "RETURN"
  | .equal => "CMPE"
  | .less => "CMPLT"
  | .atMost => "CMPLTE"
  | .jump => "JUMP"
  | .jumpZero => "JUMPZ"
  | .jumpNonzero => "JUMPNZ"
  | .truth => "BOOL"
  | .negate => "LNOT"
  | .add => "ADD"
  | .sub => "SUB"
  | .or => "OR"
  | .and => "AND"
  | .xor => "XOR"
  | .mul => "MUL"
  | .div => "DIV"
  | .mod => "MOD"

/-- Whether an opcode transfers control to another routine. -/
def isCall (op : Opcode) : Bool :=
  op == .call

/-- Every opcode is found under its own number. -/
theorem ofNumber?_number (op : Opcode) : ofNumber? op.number = some op := by
  cases op <;> decide

end Opcode

/-- An opcode with its two operands. -/
structure Instruction where
  op : Opcode
  /-- The constant, address offset, jump distance or routine number of the operation. -/
  immediate : Int32 := 0
  /-- The number of values a `pop` discards. -/
  size : Int32 := 0
  deriving DecidableEq, Inhabited

namespace Instruction

/-- The instruction that a breakpoint puts over the code. -/
def breakpoint : Instruction :=
  { op := .trap }

end Instruction

end BytecodeDebugger
