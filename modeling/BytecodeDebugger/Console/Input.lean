import BytecodeDebugger.Debugger.Command
import BytecodeDebugger.Text.Blank
import BytecodeDebugger.Text.Number

/-!
# Console input

The commands of the interactive console, and how a line is read as one. A line is a word with a
fixed number of arguments; a blank line repeats the command before it.
-/

namespace BytecodeDebugger.Console

/-- A command of the console. -/
inductive Input where
  /-- Do again what was done last. -/
  | again
  /-- Show the place of the innermost frame and the last value returned. -/
  | registers
  /-- Show the memory of the innermost frame. -/
  | memory
  /-- Show the operand stack. -/
  | stack
  /-- Show all frames. -/
  | backtrace
  /-- Show the listing of the current routine. -/
  | list
  /-- Set a breakpoint on a line of the current file, counted from one. -/
  | breakLine (line : UInt32)
  /-- Set a breakpoint at a location. -/
  | breakAt (place : Location)
  /-- Remove the breakpoint on a line of the current file, counted from one. -/
  | clearLine (line : UInt32)
  /-- Move on. -/
  | step (command : Command)
  /-- Leave. -/
  | quit
  deriving DecidableEq

/-- Why a line is no command. -/
inductive InputError where
  /-- No command has this word with so many arguments. -/
  | invalidCommand
  /-- Lines are counted from one. -/
  | lineZero
  /-- An argument is not a number. -/
  | number (cause : Text.NumberError)
  deriving DecidableEq

namespace InputError

/-- The wording of an input error. -/
def message : InputError → String
  | .invalidCommand => "Invalid Command"
  | .lineZero => "Line numbers start at 1"
  | .number cause => cause.message

end InputError

/-- Reads an argument as a number below a bound. -/
def readArgument (bound : Nat) (word : String) : Except InputError Nat :=
  match Text.readNumber bound word with
  | .ok n => .ok n
  | .error cause => .error (.number cause)

/-- Reads an argument as the number of a line. -/
def readLine (word : String) : Except InputError UInt32 := do
  let n ← readArgument 0x100000000 word
  if n = 0 then throw .lineZero else pure n.toUInt32

/-- Reads an argument pair as a location. -/
def readLocation (function address : String) : Except InputError Location := do
  let function ← readArgument 0x10000000000000000 function
  let address ← readArgument 0x10000000000000000 address
  pure ⟨function, address⟩

/-- Reads the words of a line as a command. -/
def Input.ofWords : List String → Except InputError Input
  | [] => .ok .again
  | ["reg"] => .ok .registers
  | ["read"] => .ok .memory
  | ["stack"] => .ok .stack
  | ["bt"] => .ok .backtrace
  | ["list"] => .ok .list
  | ["bp", line] => Input.breakLine <$> readLine line
  | ["bpa", function, address] => Input.breakAt <$> readLocation function address
  | ["rm", line] => Input.clearLine <$> readLine line
  | ["over"] => .ok (.step .over)
  | ["into"] => .ok (.step .into)
  | ["out"] => .ok (.step .out)
  | ["step"] => .ok (.step .single)
  | ["continue"] => .ok (.step .proceed)
  | ["c"] => .ok (.step .proceed)
  | ["quit"] => .ok .quit
  | ["q"] => .ok .quit
  | _ => .error .invalidCommand

/-- Reads a line as a command. -/
def Input.ofLine (line : String) : Except InputError Input :=
  Input.ofWords (Text.words line)

end BytecodeDebugger.Console
