import BytecodeDebugger.Machine.Fault

/-!
# The memory of a frame

Each frame has a memory of its own, which holds its arguments first. A memory is as large as the
greatest address written so far demands; cells that were never written are zero.

## Implementation notes

`write` is inlined, so that the branch on its answer meets the branch within it and the cells are
changed in place.
-/

namespace BytecodeDebugger

/-- The memory of one frame. -/
structure Memory where
  cells : Array Int32 := #[]
  deriving DecidableEq, Inhabited

namespace Memory

/-- The number of cells that a frame can address, twenty bits of addresses. -/
def limit : Nat :=
  0x100000

/-- The number of cells in use. -/
def size (m : Memory) : Nat :=
  m.cells.size

/-- The cell number of an address; a fault if it is negative or not below the limit. -/
def index (address : Int) : Except Fault Nat :=
  if 0 ≤ address ∧ address < limit then .ok address.toNat
  else .error (.invalidMemoryAddress address)

/-- The value of the cell at an address. -/
def read (m : Memory) (address : Int) : Except Fault Int32 :=
  match index address with
  | .error fault => .error fault
  | .ok i => .ok (m.cells[i]?.getD 0)

/-- Extends a memory with zeros to at least so many cells. -/
def grow (m : Memory) (size : Nat) : Memory :=
  ⟨m.cells ++ Array.replicate (size - m.cells.size) 0⟩

/-- Sets a cell, after extending the memory up to it. -/
def set (m : Memory) (i : Nat) (value : Int32) : Memory :=
  ⟨(m.grow (i + 1)).cells.setIfInBounds i value⟩

/-- Sets the cell at an address. -/
@[inline]
def write (m : Memory) (address : Int) (value : Int32) : Except Fault Memory :=
  match index address with
  | .error fault => .error fault
  | .ok i => .ok (m.set i value)

end Memory

end BytecodeDebugger
