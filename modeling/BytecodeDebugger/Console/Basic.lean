import BytecodeDebugger.Console.Input
import BytecodeDebugger.Console.Show

/-!
# The interactive console

A console controls a stepper by lines of text. It halts the called routine after its first
instruction, and takes a line whenever a call is halted. It ends when the call does.

## Implementation notes

A console answers each line by a `Turn`. A line that is no command is answered on the error output
and leaves everything as it is.
-/

namespace BytecodeDebugger

/-- A stepper under control, and the command that a blank line repeats. -/
structure Console where
  stepper : Stepper
  last : Option Console.Input := none

namespace Console

/-- How it goes on after a turn. -/
inductive Status where
  /-- Another line is awaited. -/
  | waiting (console : Console)
  /-- The console has ended with this exit code. -/
  | ended (code : UInt8)

/-- The answer of a console to a line. -/
structure Turn where
  out : String := ""
  err : String := ""
  status : Status

/-- Ends a console with an error. -/
def failure (message : String) : Turn :=
  { err := s!"Error: {message}\n", status := .ended 1 }

/-- Ends a console with the value of the call. -/
def exited (out : String) (value : Int32) : Turn :=
  { out := out ++ s!"Program exited with {value}\n", status := .ended 0 }

/-- Awaits the next line, after showing where the call is halted. -/
def await (out : String) (c : Console) : Turn :=
  { out := out ++ showLocation c.stepper.debugger, status := .waiting c }

/-- Loads a program and calls a routine of it. -/
def start (fuel : Nat) (program : Program) (entry : String) (args : Array Int32) : Option Turn :=
  let debugger := (({} : Debugger).load program).2
  let s := Stepper.ofDebugger debugger
  let s := { s with breaks := s.breaks.subscribe }.pause
  (s.call fuel entry args).map fun (answer, s) =>
    let out := String.join ((s.breaks.since 0).map fun (_, frame) => s!"Break at {frame.text}\n")
    match answer with
    | .error error => { failure error.message with out }
    | .ok (.finished value) => exited out value
    | .ok .paused => await out { stepper := s }

/-- What is shown if no file is known to which a line number refers. -/
def noFile : String :=
  "No source file at the current location\n"

/-- Sets a breakpoint on a line of the current file. -/
def breakLine (line : UInt32) (s : Stepper) : String × Stepper :=
  match currentFile? s.debugger with
  | none => (noFile, s)
  | some file =>
    let (place, debugger) := s.debugger.setLine ⟨file, line - 1⟩
    (match place with
      | some place => s!"Breakpoint set at {place.text}\n"
      | none => s!"No code at {file}:{line}\n",
      { s with debugger })

/-- Removes the breakpoint on a line of the current file. -/
def clearLine (line : UInt32) (s : Stepper) : String × Stepper :=
  match currentFile? s.debugger with
  | none => (noFile, s)
  | some file => ("", { s with debugger := s.debugger.removeLine ⟨file, line - 1⟩ })

/-- Carries a command out, with the text it shows. -/
def carryOut (fuel : Nat) (files : FileSystem) (s : Stepper) :
    Input → Option (Except DebugError String × Stepper)
  | .again => some (.ok "", s)
  | .registers => some (.ok (showRegisters s.debugger), s)
  | .memory => some (.ok (showMemory s.debugger), s)
  | .stack => some (.ok (showStack s.debugger), s)
  | .backtrace => some (.ok (showBacktrace s.debugger), s)
  | .list => some (.ok (showListing files s.debugger), s)
  | .breakLine line => let (out, s) := breakLine line s; some (.ok out, s)
  | .breakAt place => some (.ok "", s.set place)
  | .clearLine line => let (out, s) := clearLine line s; some (.ok out, s)
  | .step command => (s.start fuel command).map fun (answer, s) => (answer.map fun _ => "", s)
  | .quit => some (.ok "", s)

/-- Answers a line. -/
def feed (fuel : Nat) (files : FileSystem) (c : Console) (line : String) : Option Turn :=
  match Input.ofLine line with
  | .error error => some { err := s!"Error: {error.message}\n", status := .waiting c }
  | .ok input =>
    let input := if input = .again then c.last.getD input else input
    if input = .quit then
      some { status := .ended 0 }
    else
      (carryOut fuel files c.stepper input).map fun (answer, s) =>
        match answer with
        | .error error => failure error.message
        | .ok out =>
          if s.vm.isPaused then await out { stepper := s, last := some input }
          else exited out s.vm.returnValue

/-- Answers lines until the console ends, which the end of the lines makes it do. -/
def feedAll (fuel : Nat) (files : FileSystem) : Turn → List String → Option Turn
  | ⟨out, err, .ended code⟩, _ => some ⟨out, err, .ended code⟩
  | ⟨out, err, .waiting _⟩, [] => some ⟨out, err, .ended 0⟩
  | ⟨out, err, .waiting c⟩, line :: rest =>
    match c.feed fuel files line with
    | none => none
    | some turn => feedAll fuel files ⟨out ++ turn.out, err ++ turn.err, turn.status⟩ rest

end Console

end BytecodeDebugger
