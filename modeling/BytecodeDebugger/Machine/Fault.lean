/-!
# Faults

The ways in which an instruction can fail. A fault ends the call that executes the instruction.
-/

namespace BytecodeDebugger

/-- Why an instruction could not be executed. -/
inductive Fault where
  /-- The instruction needs more operands than its frame has. -/
  | stackUnderflow
  /-- There is no instruction at the address. -/
  | invalidCodeAddress (address : Int)
  /-- The address is outside the memory of a frame. -/
  | invalidMemoryAddress (address : Int)
  /-- There is no routine with the number. -/
  | invalidFunction (index : Int)
  /-- The divisor is zero. -/
  | divisionByZero
  deriving DecidableEq

namespace Fault

/-- The wording of a fault. -/
def message : Fault → String
  | .stackUnderflow => "stack underflow"
  | .invalidCodeAddress address => s!"invalid code address {address}"
  | .invalidMemoryAddress address => s!"invalid memory address {address}"
  | .invalidFunction index => s!"invalid function index {index}"
  | .divisionByZero => "division by zero"

end Fault

end BytecodeDebugger
