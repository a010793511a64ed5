/-!
# Places in source files

The source positions that instructions are bound to. Lines and columns are counted from zero, and a
span without a file name marks code that has no source.
-/

namespace BytecodeDebugger

/-- A position in a source file. -/
structure Position where
  line : UInt32
  column : UInt32
  deriving DecidableEq, Inhabited

namespace Position

/-- Positions are ordered by line, then by column. -/
instance : Ord Position := ⟨compareLex (compareOn line) (compareOn column)⟩

/-- A position as `line:column`. -/
def text (p : Position) : String :=
  s!"{p.line}:{p.column}"

end Position

/-- The stretch of source that an instruction was generated for. -/
structure SourceSpan where
  /-- The file, empty if the code has no source. -/
  file : String
  start : Position
  stop : Position
  deriving DecidableEq, Inhabited

namespace SourceSpan

/-- The span that starts and ends at the beginning of a line. -/
def ofLine (file : String) (line : UInt32) : SourceSpan :=
  ⟨file, ⟨line, 0⟩, ⟨line, 0⟩⟩

/-- Whether the span names a file. -/
def hasFile (s : SourceSpan) : Bool :=
  !s.file.isEmpty

/-- Whether a line lies within the span. -/
def covers (s : SourceSpan) (line : UInt32) : Bool :=
  s.start.line ≤ line && line ≤ s.stop.line

end SourceSpan

/-- A line of a source file. -/
structure SourceLine where
  file : String
  line : UInt32
  deriving DecidableEq, Inhabited

namespace SourceLine

/-- Source lines are ordered by file, then by line. -/
instance : Ord SourceLine := ⟨compareLex (compareOn file) (compareOn line)⟩

instance : Std.TransOrd SourceLine :=
  inferInstanceAs (Std.TransCmp (compareLex (compareOn file) (compareOn line)))

instance : Std.LawfulEqOrd SourceLine where
  eq_of_compare {a b} h := by
    obtain ⟨hfile, hline⟩ := compareLex_eq_eq.mp h
    have hfile : compare a.file b.file = .eq := hfile
    have hline : compare a.line b.line = .eq := hline
    cases a
    cases b
    cases Std.LawfulEqCmp.eq_of_compare hfile
    cases Std.LawfulEqCmp.eq_of_compare hline
    rfl

end SourceLine

end BytecodeDebugger
