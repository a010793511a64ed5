import BytecodeDebugger.CommandLine.Options
import BytecodeDebugger.Console.Basic
import BytecodeDebugger.Wire.Image

/-!
# The command line

A program is read from its image and run, listed, or controlled by the interactive console.
-/

namespace BytecodeDebugger

namespace CommandLine

/-- What a run of the command line shows and returns. -/
structure Result where
  out : String := ""
  err : String := ""
  code : UInt8 := 0
  deriving DecidableEq

/-- An error with the cause of it. -/
def failure (context cause : String) : Result :=
  { err := s!"Error: {context}\n\nCaused by:\n    {cause}\n", code := 1 }

/-- The program of an image in a file. -/
def readProgram (files : FileSystem) (path : String) : Except Result Program :=
  match files path with
  | none => .error (failure s!"Could not read {path}" "No such file or directory (os error 2)")
  | some bytes =>
    match Wire.decode bytes.data.toList with
    | .error error => .error (failure s!"Could not load {path}" error.message)
    | .ok program => .ok program

/-- The exit code of a value: its lowest eight bits. -/
def exitCode (value : Int32) : UInt8 :=
  (value.toInt % 256).toNat.toUInt8

/-- Calls a routine and exits with its value. -/
def runPlain (fuel : Nat) (program : Program) (entry : String) (args : Array Int32) :
    Option Result :=
  ((({} : Debuggee).load program).2.call fuel entry args).map fun (answer, vm) =>
    match answer with
    | .ok (.finished value) => { code := exitCode value }
    | .ok .paused =>
      let place := (vm.frameInfo? 0).elim "" FrameInfo.text
      { err := s!"Hit a break instruction at {place}\n", code := 1 }
    | .error error => { err := s!"{error.message}\n", code := 1 }

/-- What a finished console shows and returns. -/
def ofTurn (turn : Console.Turn) : Result :=
  { out := turn.out
    err := turn.err
    code := match turn.status with
      | .ended code => code
      | .waiting _ => 0 }

/-- Does what the options ask for; no answer means that a run request had none. -/
def run (fuel : Nat) (files : FileSystem) (input : String) (options : Options) : Option Result :=
  match readProgram files options.image with
  | .error result => some result
  | .ok program =>
    if options.listing then
      some { out := Listing.ofProgram files program }
    else if options.debug then
      match Console.start fuel program options.entry options.args with
      | none => none
      | some turn => (Console.feedAll fuel files turn (Text.lines input)).map ofTurn
    else
      runPlain fuel program options.entry options.args

end CommandLine

end BytecodeDebugger
