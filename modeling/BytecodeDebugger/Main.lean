import BytecodeDebugger.CommandLine.Basic

/-!
# The executable

Reads the files that a command line is about, runs it and passes lines between the terminal and the
console.
-/

namespace BytecodeDebugger.CommandLine

/-- More instructions than can be executed in a lifetime. -/
def unlimited : Nat :=
  0x4000000000000000

/-- The source files that the spans of a program name. -/
def sourceFiles (program : Program) : List String :=
  (program.routines.toList.flatMap fun r => r.spans.entries.map fun entry => entry.2.file).eraseDups

/-- The files of a list that can be read. -/
def readFiles (paths : List String) : IO FileSystem := do
  let found ← paths.filterMapM fun (path : String) => do
    try
      return some (path, ← IO.FS.readBinFile path)
    catch _ =>
      return none
  return fun path => found.lookup path

/-- Shows what a run shows. -/
def Result.print (result : Result) : IO UInt32 := do
  (← IO.getStdout).putStr result.out
  (← IO.getStderr).putStr result.err
  return result.code.toUInt32

/-- What is said where a run request has no answer, which within that bound means that an instruction
stopped the process. -/
def stopped : Result :=
  { err := "Error: The process was stopped\n", code := 101 }

/-- Passes lines to a console until it ends. -/
partial def interact (files : FileSystem) (turn : Console.Turn) : IO UInt32 := do
  let stdout ← IO.getStdout
  stdout.putStr turn.out
  stdout.flush
  (← IO.getStderr).putStr turn.err
  match turn.status with
  | .ended code => return code.toUInt32
  | .waiting console =>
    let line ← (← IO.getStdin).getLine
    if line.isEmpty then
      return 0
    else
      match console.feed unlimited files ((Text.lines line).headD "") with
      | none => stopped.print
      | some turn => interact files turn

/-- Does what the options ask for. -/
def Options.execute (options : Options) : IO UInt32 := do
  let image ← readFiles [options.image]
  match readProgram image options.image with
  | .error result => result.print
  | .ok program =>
    let files ← readFiles (options.image :: sourceFiles program)
    if options.debug && !options.listing then
      match Console.start unlimited program options.entry options.args with
      | none => stopped.print
      | some turn => interact files turn
    else
      ((run unlimited files "" options).getD stopped).print

end BytecodeDebugger.CommandLine

/-- Runs the command line. -/
def main (arguments : List String) : IO UInt32 := do
  match BytecodeDebugger.CommandLine.Options.ofArguments arguments with
  | .ok options => options.execute
  | .error message =>
    IO.eprintln message
    return 2
