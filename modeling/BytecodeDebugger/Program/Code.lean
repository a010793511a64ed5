import BytecodeDebugger.Ordered.Map
import BytecodeDebugger.Program.Instruction

/-!
# Code with breakpoints patched into it

The code of one routine, as the machine sees it and as it was written. A breakpoint displaces an
instruction: a trap stands in its place and the instruction moves into a side table. `patch` and
`restore` are the only writes, and each displaced address holds a trap, which is a field of the
type.

## Implementation notes

A trap that was part of the code from the start is not in the side table. An address is therefore
called patched if the side table has it, whatever instruction stands there.
-/

namespace BytecodeDebugger

/-- The answer to a request to patch an address. -/
inductive PatchResult where
  /-- There is no instruction at the address. -/
  | outOfRange
  /-- The address held a patched trap before. -/
  | present
  /-- The trap was put there now. -/
  | applied
  deriving DecidableEq

/-- The instructions of one routine, some of them displaced by traps. -/
structure Code where
  /-- What the machine executes. -/
  live : Array Instruction
  /-- The displaced instruction of every patched address. -/
  displaced : SortedMap Nat Instruction
  /-- A trap stands at every patched address. -/
  trapped : ∀ address, displaced.contains address = true →
    live[address]? = some Instruction.breakpoint

namespace Code

/-- Codes with equal live instructions and equal side tables are equal. -/
@[ext]
theorem ext {c d : Code} (hlive : c.live = d.live) (hdisplaced : c.displaced = d.displaced) :
    c = d := by
  cases c
  cases d
  cases hlive
  cases hdisplaced
  rfl

instance : DecidableEq Code := fun c d =>
  decidable_of_iff (c.live = d.live ∧ c.displaced = d.displaced)
    ⟨fun h => ext h.1 h.2, fun h => h ▸ ⟨rfl, rfl⟩⟩

/-- Code without patches. -/
def ofInstructions (instructions : Array Instruction) : Code where
  live := instructions
  displaced := ∅
  trapped _ h := by simp [SortedMap.contains, EmptyCollection.emptyCollection, SortedMap.empty] at h

instance : Inhabited Code := ⟨ofInstructions #[]⟩

/-- The number of instructions. -/
def size (c : Code) : Nat :=
  c.live.size

/-- The instruction the machine executes at an address. -/
def get? (c : Code) (address : Nat) : Option Instruction :=
  c.live[address]?

/-- The instruction at an address as it was written, whether or not it is displaced. -/
def instructionAt? (c : Code) (address : Nat) : Option Instruction :=
  (c.displaced.get? address).or c.live[address]?

/-- All instructions as they were written. -/
def instructions (c : Code) : Array Instruction :=
  c.live.mapIdx fun address instruction => (c.displaced.get? address).getD instruction

/-- Whether a breakpoint displaced the instruction at an address. -/
def isPatched (c : Code) (address : Nat) : Bool :=
  c.displaced.contains address

/-- The patched addresses in ascending order. -/
def patchedAddresses (c : Code) : List Nat :=
  c.displaced.keys

theorem trapped_set {live : Array Instruction} {displaced : SortedMap Nat Instruction}
    (h : ∀ a, displaced.contains a = true → live[a]? = some Instruction.breakpoint)
    (address : Nat) (hsize : address < live.size) (instruction : Instruction) :
    ∀ a, (displaced.insert address instruction).contains a = true →
      (live.set address Instruction.breakpoint hsize)[a]? = some Instruction.breakpoint := by
  intro a ha
  by_cases heq : address = a
  · subst heq
    simp
  · rcases SortedMap.contains_of_insert ha with rfl | ha
    · exact absurd rfl heq
    · simpa [Array.getElem?_set, heq] using h a ha

/-- Displaces the instruction at an address by a trap. -/
def patch (c : Code) (address : Nat) : PatchResult × Code :=
  if h : address < c.live.size then
    if c.displaced.contains address then
      (.present, c)
    else
      (.applied,
        { live := c.live.set address Instruction.breakpoint h
          displaced := c.displaced.insert address c.live[address]
          trapped := trapped_set c.trapped address h _ })
  else
    (.outOfRange, c)

theorem trapped_erase {live : Array Instruction} {displaced : SortedMap Nat Instruction}
    (h : ∀ a, displaced.contains a = true → live[a]? = some Instruction.breakpoint)
    (address : Nat) (instruction : Instruction) :
    ∀ a, (displaced.erase address).contains a = true →
      (live.setIfInBounds address instruction)[a]? = some Instruction.breakpoint := by
  intro a ha
  obtain ⟨hne, ha⟩ := SortedMap.contains_of_erase ha
  simpa [Array.getElem?_setIfInBounds, Ne.symm hne] using h a ha

/-- Puts a displaced instruction back, and returns it if there was one. -/
def restore (c : Code) (address : Nat) : Option Instruction × Code :=
  match c.displaced.get? address with
  | none => (none, c)
  | some instruction =>
    (some instruction,
      { live := c.live.setIfInBounds address instruction
        displaced := c.displaced.erase address
        trapped := trapped_erase c.trapped address instruction })

/-- Puts every displaced instruction back. -/
def restoreAll (c : Code) : Code :=
  ofInstructions c.instructions

/-- Code without patches consists of the instructions it was made of. -/
theorem instructions_ofInstructions (instructions : Array Instruction) :
    (ofInstructions instructions).instructions = instructions := by
  apply Array.ext
  · simp [Code.instructions, ofInstructions]
  · intro i _ _
    simp [Code.instructions, ofInstructions, SortedMap.get?, EmptyCollection.emptyCollection,
      SortedMap.empty]

/-- A displaced address lies within the code. -/
theorem lt_size_of_isPatched {c : Code} {address : Nat} (h : c.isPatched address = true) :
    address < c.size := by
  have hlive := c.trapped address h
  exact (Array.getElem?_eq_some_iff.mp hlive).1

/-- The two ways to see the code as it was written agree. -/
theorem getElem?_instructions (c : Code) (address : Nat) :
    c.instructions[address]? = c.instructionAt? address := by
  rw [Code.instructions, Array.getElem?_mapIdx, instructionAt?]
  cases hget : c.displaced.get? address with
  | none => simp
  | some instruction =>
    have hpatched : c.isPatched address = true := by
      rw [isPatched, SortedMap.contains_eq_isSome_get?, hget]
      rfl
    have hlt : address < c.live.size := lt_size_of_isPatched hpatched
    simp [hlt]

/-- Patching does not change the code as it was written. -/
theorem instructionAt?_patch (c : Code) (address other : Nat) :
    (c.patch address).2.instructionAt? other = c.instructionAt? other := by
  rw [patch]
  split
  · rename_i hlt
    split
    · rfl
    · by_cases heq : address = other
      · subst heq
        rename_i hfree
        have hnone : c.displaced.get? address = none := by
          rw [SortedMap.contains_eq_isSome_get?] at hfree
          simpa using hfree
        simp [instructionAt?, SortedMap.get?_insert, hnone, hlt]
      · simp [instructionAt?, SortedMap.get?_insert, heq]
  · rfl

/-- Restoring does not change the code as it was written. -/
theorem instructionAt?_restore (c : Code) (address other : Nat) :
    (c.restore address).2.instructionAt? other = c.instructionAt? other := by
  rw [restore]
  split
  · rfl
  · rename_i instruction hget
    by_cases heq : address = other
    · subst heq
      have hpatched : c.isPatched address = true := by
        rw [isPatched, SortedMap.contains_eq_isSome_get?, hget]
        rfl
      have hlt : address < c.live.size := lt_size_of_isPatched hpatched
      simp [instructionAt?, SortedMap.get?_erase, hget, hlt]
    · simp [instructionAt?, SortedMap.get?_erase, heq]

end Code

end BytecodeDebugger
