import BytecodeDebugger.Debuggee

/-!
# Stepping commands and their errors

The commands that move a halted call on, by their names.
-/

namespace BytecodeDebugger

/-- A command that moves a halted call on. -/
inductive Command where
  /-- To a later line or into another routine. -/
  | into
  /-- To a later line, past the calls in between. -/
  | over
  /-- To the caller. -/
  | out
  /-- To a breakpoint. -/
  | proceed
  /-- By one instruction. -/
  | single
  deriving DecidableEq

namespace Command

/-- The name of a command. -/
def name : Command → String
  | .into => "step into"
  | .over => "step over"
  | .out => "step out"
  | .proceed => "continue"
  | .single => "step"

end Command

/-- Why a debugger did not serve a request. -/
inductive DebugError where
  /-- The command needs a halted call. -/
  | notPaused (command : Command)
  /-- The run request failed. -/
  | run (error : RunError)
  deriving DecidableEq

namespace DebugError

/-- The wording of a debugger error. -/
def message : DebugError → String
  | .notPaused command => s!"Cannot {command.name}, the vm is not paused"
  | .run error => error.message

end DebugError

end BytecodeDebugger
