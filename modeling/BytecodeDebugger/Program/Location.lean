/-!
# Places in loaded programs

A `Location` is an address of a routine: the place of a breakpoint. A `FrameInfo` is the place an
activation stands at, together with the identity of the program it belongs to, so that a place of a
program that is no longer loaded can be told from one of the program that is.
-/

namespace BytecodeDebugger

/-- An address within a routine. -/
structure Location where
  function : Nat
  address : Nat
  deriving DecidableEq, Inhabited

namespace Location

/-- Locations are ordered by routine, then by address. -/
instance : Ord Location := ⟨compareLex (compareOn function) (compareOn address)⟩

instance : Std.TransOrd Location :=
  inferInstanceAs (Std.TransCmp (compareLex (compareOn function) (compareOn address)))

instance : Std.LawfulEqOrd Location where
  eq_of_compare {a b} h := by
    obtain ⟨hfunction, haddress⟩ := compareLex_eq_eq.mp h
    have hfunction : compare a.function b.function = .eq := hfunction
    have haddress : compare a.address b.address = .eq := haddress
    cases a
    cases b
    cases Std.LawfulEqCmp.eq_of_compare hfunction
    cases Std.LawfulEqCmp.eq_of_compare haddress
    rfl

/-- A location as `function@address`. -/
def text (l : Location) : String :=
  s!"{l.function}@{l.address}"

end Location

/-- The identity of a loaded program: the number of loads before it. -/
structure ProgramId where
  number : UInt32
  deriving DecidableEq, Inhabited

namespace ProgramId

/-- The identity that the next load gets. -/
def succ (id : ProgramId) : ProgramId :=
  ⟨id.number + 1⟩

/-- An identity as `module#number`. -/
def text (id : ProgramId) : String :=
  s!"module#{id.number}"

end ProgramId

/-- The place at which an activation of a routine stands. -/
structure FrameInfo where
  program : ProgramId
  function : Nat
  pc : Nat
  deriving DecidableEq, Inhabited

namespace FrameInfo

/-- The location an activation stands at. -/
def location (f : FrameInfo) : Location :=
  ⟨f.function, f.pc⟩

/-- A place as `module#number:function@pc`. -/
def text (f : FrameInfo) : String :=
  s!"{f.program.text}:{f.function}@{f.pc}"

end FrameInfo

end BytecodeDebugger
