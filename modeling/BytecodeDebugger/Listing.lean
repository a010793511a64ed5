import BytecodeDebugger.Files
import BytecodeDebugger.Program.Basic
import BytecodeDebugger.Text.Bytes
import BytecodeDebugger.Text.Lines
import BytecodeDebugger.Text.Number

/-!
# Listings

A listing shows the code of routines as it was written, one instruction a line, with the source text
of the spans. It goes to a sink that may refuse bytes from some point on; the first refusal ends the
listing.

## Implementation notes

Source files are read when a span first asks for them, and what was read is kept, also that a file
could not be read. Where the source text of a span is not to be had, its positions are shown.
-/

namespace BytecodeDebugger

/-- A receiver of bytes. -/
structure Sink where
  /-- The number of bytes it still takes, if there is a limit. -/
  room : Option Nat := none
  /-- The bytes it has taken. -/
  written : ByteArray := .empty

namespace Sink

/-- Takes as much of a text as there is room for. The answer says whether that was all. -/
def put : Sink → String → Bool × Sink
  | ⟨none, written⟩, text => (true, ⟨none, written ++ text.toUTF8⟩)
  | ⟨some room, written⟩, text =>
    let bytes := text.toUTF8
    (bytes.size ≤ room, ⟨some (room - bytes.size), written ++ bytes.extract 0 room⟩)

end Sink

namespace Listing

/-- A sink, and the source files read so far. -/
structure Writer where
  sink : Sink := {}
  /-- The lines of each file asked for, none for a file that could not be read. -/
  sources : SortedMap String (Option (List String)) := ∅

/-- The answer to writing: the writer after it, as an error if the sink refused something. -/
abbrev Written := Except Writer Writer

/-- Writes a text. -/
def Writer.put : Writer → String → Written
  | ⟨sink, sources⟩, text =>
    match sink.put text with
    | (true, sink) => .ok ⟨sink, sources⟩
    | (false, sink) => .error ⟨sink, sources⟩

/-- The lines of a source file, which is read unless it was asked for before. -/
def Writer.source (files : FileSystem) (path : String) (w : Writer) :
    Option (List String) × Writer :=
  if path.isEmpty then
    (none, w)
  else
    match w.sources.get? path with
    | some known => (known, w)
    | none =>
      let lines := (files.readText? path).map Text.lines
      (lines, { w with sources := w.sources.insert path lines })

/-- What is shown for a span without source text. -/
def positions (span : SourceSpan) : String :=
  s!"<{span.file}; {span.start.line},{span.start.column} : {span.stop.line},{span.stop.column}>"

/-- The source text of a span within the lines of its file: from its start to its end, or to the end
of the line if it ends on another one. -/
def excerpt? (lines : List String) (span : SourceSpan) : Option String := do
  let line ← lines[span.start.line.toNat]?
  let chars := line.toList
  let stop := if span.stop.line = span.start.line then span.stop.column.toNat
    else Text.byteCount chars
  let cut ← Text.slice? chars span.start.column.toNat stop
  pure (String.ofList cut)

/-- What is shown for a span. -/
def snippet (files : FileSystem) (span : SourceSpan) (w : Writer) : String × Writer :=
  let (lines, w) := w.source files span.file
  ((lines.bind fun lines => excerpt? lines span).getD (positions span), w)

/-- An instruction with its address. -/
def instructionText (address : Nat) (i : Instruction) : String :=
  s!"{Text.flushRight 8 (toString address)}:  {i.op.mnemonic} \t{i.immediate}"

/-- Writes the line of one instruction, with an arrow if its address is marked. -/
def writeInstruction (files : FileSystem) (r : Routine) (marker : Option Nat) (address : Nat)
    (i : Instruction) (w : Writer) : Written := do
  let arrow := if marker = some address then "->" else "  "
  let w ← w.put (arrow ++ instructionText address i)
  let w ← match r.spanAt? address with
    | some span =>
      let (shown, w) := snippet files span w
      w.put s!"\t; {shown}"
    | none => .ok w
  w.put "\n"

/-- Writes the lines of instructions, the first of which has the given address. -/
def writeInstructions (files : FileSystem) (r : Routine) (marker : Option Nat) :
    Nat → List Instruction → Writer → Written
  | _, [], w => .ok w
  | address, i :: rest, w => do
    let w ← writeInstruction files r marker address i w
    writeInstructions files r marker (address + 1) rest w

/-- Writes one routine. -/
def writeRoutine (files : FileSystem) (name : String) (index : Nat) (r : Routine)
    (marker : Option Nat) (w : Writer) : Written := do
  let w ← w.put s!"[{index}] {name}\n"
  let w ← writeInstructions files r marker 0 r.code.instructions.toList w
  w.put "\n"

/-- Writes routines, the first of which has the given number. -/
def writeRoutines (files : FileSystem) (p : Program) : Nat → List Routine → Writer → Written
  | _, [], w => .ok w
  | index, r :: rest, w => do
    let w ← writeRoutine files ((p.nameOf? index).getD "") index r none w
    writeRoutines files p (index + 1) rest w

/-- Writes all routines of a program. -/
def writeProgram (files : FileSystem) (p : Program) (w : Writer) : Written :=
  writeRoutines files p 0 p.routines.toList w

/-- The writer that an answer to writing carries. -/
def Written.writer : Written → Writer
  | .ok w => w
  | .error w => w

/-- The listing of a whole program. -/
def ofProgram (files : FileSystem) (p : Program) : String :=
  Text.ofBytes (Written.writer (writeProgram files p {})).sink.written

/-- The listing of one routine. -/
def ofRoutine (files : FileSystem) (name : String) (index : Nat) (r : Routine)
    (marker : Option Nat) : String :=
  Text.ofBytes (Written.writer (writeRoutine files name index r marker {})).sink.written

end Listing

end BytecodeDebugger
