import BytecodeDebugger.Program.Code
import BytecodeDebugger.Program.Location
import BytecodeDebugger.Program.Source

/-!
# Programs

A linked program is a list of routines with tables of exported names, enumeration values, unresolved
names and strings. Routines carry the source spans of some of their addresses.

## Implementation notes

The search for the code of a source line takes the spans of one routine to come from one file: it
leaves a routine at the first span of another file. Spans without a file are passed over, and spans
beyond the end of the code are not looked at.
-/

namespace BytecodeDebugger

/-- A routine in its linked form. -/
structure Routine where
  code : Code
  /-- The source spans of statement and expression boundaries, by address. -/
  spans : SortedMap Nat SourceSpan := ∅
  /-- The number of operands that a call moves into the memory of the new frame. -/
  argCount : Nat := 0
  deriving DecidableEq, Inhabited

namespace Routine

/-- The span of exactly this address. -/
def spanAt? (r : Routine) (address : Nat) : Option SourceSpan :=
  r.spans.get? address

/-- The first address, not below the given one, that has a span. -/
def spanFrom? (r : Routine) (address : Nat) : Option (Nat × SourceSpan) :=
  r.spans.firstFrom? address

/-- The first of a list of spans that covers a line of a file, unless a span of another file comes
before it. -/
def findLine? (file : String) (line : UInt32) : List (Nat × SourceSpan) → Option Nat
  | [] => none
  | (address, span) :: rest =>
    if !span.hasFile then findLine? file line rest
    else if span.file ≠ file then none
    else if span.covers line then some address
    else findLine? file line rest

/-- The first address whose span covers a line of a file. -/
def lookupLine? (r : Routine) (file : String) (line : UInt32) : Option Nat :=
  findLine? file line (r.spans.entries.filter fun entry => entry.1 < r.code.size)

/-- The routine with every displaced instruction back in its place. -/
def unpatched (r : Routine) : Routine :=
  { r with code := r.code.restoreAll }

end Routine

/-- A linked program. -/
structure Program where
  routines : Array Routine := #[]
  /-- Names of routines that were declared and not defined. -/
  undefinedNames : List String := []
  /-- The numbers of the routines that can be called by name. -/
  exports : SortedMap String Nat := ∅
  enumValues : SortedMap String Int32 := ∅
  strings : List String := []
  deriving DecidableEq, Inhabited

namespace Program

/-- The routine with a number. -/
def routine? (p : Program) (index : Nat) : Option Routine :=
  p.routines[index]?

/-- The number of an exported routine. -/
def lookup? (p : Program) (name : String) : Option Nat :=
  p.exports.get? name

/-- The first name, in name order, under which a routine is exported. -/
def nameOf? (p : Program) (index : Nat) : Option String :=
  (p.exports.entries.find? fun entry => entry.2 == index).map (·.1)

/-- Searches routines, numbered from `index`, for the code of a source line. -/
def findLine? (file : String) (line : UInt32) : Nat → List Routine → Option Location
  | _, [] => none
  | index, r :: rest =>
    match r.lookupLine? file line with
    | some address => some ⟨index, address⟩
    | none => findLine? file line (index + 1) rest

/-- The first location, in routine order, whose span covers a line of a file. -/
def lookupLine? (p : Program) (file : String) (line : UInt32) : Option Location :=
  findLine? file line 0 p.routines.toList

/-- Changes the code of one routine; a routine that does not exist is left alone. -/
def modifyCode (p : Program) (index : Nat) (f : Code → Code) : Program :=
  { p with routines := p.routines.modify index fun r => { r with code := f r.code } }

/-- Displaces the instruction at a location by a trap. The answer says whether it was put there now;
a location outside the program is left alone. -/
def patch (p : Program) (place : Location) : Bool × Program :=
  match p.routine? place.function with
  | none => (false, p)
  | some r =>
    ((r.code.patch place.address).1 == .applied,
      p.modifyCode place.function fun code => (code.patch place.address).2)

/-- Puts the displaced instruction at a location back. The answer says whether there was one. -/
def restore (p : Program) (place : Location) : Bool × Program :=
  match p.routine? place.function with
  | none => (false, p)
  | some r =>
    ((r.code.restore place.address).1.isSome,
      p.modifyCode place.function fun code => (code.restore place.address).2)

/-- The program with every displaced instruction back in its place. -/
def unpatched (p : Program) : Program :=
  { p with routines := p.routines.map Routine.unpatched }

/-- The patched locations in ascending order. -/
def patchedLocations (p : Program) : List Location :=
  p.routines.toList.zipIdx.flatMap fun (r, index) =>
    r.code.patchedAddresses.map fun address => ⟨index, address⟩

end Program

end BytecodeDebugger
