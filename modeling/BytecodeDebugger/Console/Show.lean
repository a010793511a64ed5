import BytecodeDebugger.Listing
import BytecodeDebugger.Stepper.Basic

/-!
# Console output

What the console shows of a debuggee. Source lines are shown counted from one.
-/

namespace BytecodeDebugger.Console

/-- A source line as `file:line`. -/
def lineText (line : SourceLine) : String :=
  s!"{line.file}:{line.line + 1}"

/-- A source line behind some words, or nothing. -/
def lineNote (words : String) (line : Option SourceLine) : String :=
  line.elim "" fun line => words ++ lineText line

/-- The exported name of the routine of a frame. -/
def routineName? (d : Debugger) (frame : FrameInfo) : Option String :=
  d.vm.program.bind fun program => program.nameOf? frame.function

/-- The name of the routine of a frame, or a word for one without a name. -/
def routineName (d : Debugger) (frame : FrameInfo) : String :=
  (routineName? d frame).getD "<anonymous>"

/-- The source file of the innermost frame, if it has one. -/
def currentFile? (d : Debugger) : Option String := do
  let frame ← d.vm.frameInfo? 0
  let line ← d.sourceLine? frame
  if line.file.isEmpty then none else some line.file

/-- The instruction that the innermost frame stands at. -/
def showLocation (d : Debugger) : String :=
  let shown : Option String := do
    let frame ← d.vm.frameInfo? 0
    let r ← d.routine? frame
    let i ← r.code.instructionAt? frame.pc
    pure (Listing.instructionText frame.pc i ++ lineNote "\t; " (d.sourceLine? frame) ++ "\n")
  shown.getD ""

/-- The place of the innermost frame and the last value returned. -/
def showRegisters (d : Debugger) : String :=
  let place := (d.vm.frameInfo? 0).elim "" fun frame =>
    s!"function: {frame.function} ({routineName d frame})\npc:       {frame.pc}\n" ++
      ((d.sourceLine? frame).elim "" fun line => s!"source:   {lineText line}\n")
  place ++ s!"return:   {d.vm.returnValue}\n"

/-- The cells of a memory, four a row, with the address of the first of each row. -/
def memoryRows (address : Nat) : List Int32 → List String
  | [] => []
  | cells@(_ :: _) =>
    let row := " ".intercalate ((cells.take 4).map fun cell => Text.flushRight 11 (toString cell))
    s!"{Text.flushRight 6 (toString address)}: {row}\n" ::
      memoryRows (address + 4) (cells.drop 4)
termination_by cells => cells.length

/-- The memory of the innermost frame. -/
def showMemory (d : Debugger) : String :=
  (d.vm.frameMemory? 0).elim "" fun memory => String.join (memoryRows 0 memory.cells.toList)

/-- The operand stack, the topmost operand first. -/
def showStack (d : Debugger) : String :=
  String.join (d.vm.machine.stack.values.toList.zipIdx.reverse.map fun (value, i) =>
    s!"{i}: {value}\n")

/-- All frames, the innermost first. -/
def showBacktrace (d : Debugger) : String :=
  String.join ((List.range d.vm.depth).map fun depth =>
    (d.vm.frameInfo? depth).elim "" fun frame =>
      s!"#{depth} {routineName d frame}@{frame.pc}" ++ lineNote " at " (d.sourceLine? frame) ++ "\n")

/-- A line in reverse video. -/
def reverseVideo (line : String) : String :=
  "\x1b[7m" ++ line ++ "\x1b[0m"

/-- The listing of the routine of the innermost frame, with its current line in reverse video. -/
def showListing (files : FileSystem) (d : Debugger) : String :=
  let shown : Option String := do
    let frame ← d.vm.frameInfo? 0
    let r ← d.routine? frame
    let listing := Listing.ofRoutine files ((routineName? d frame).getD "") frame.function r frame.pc
    pure (String.join ((Text.lines listing).map fun line =>
      (if line.startsWith "->" then reverseVideo line else line) ++ "\n"))
  shown.getD ""

end BytecodeDebugger.Console
