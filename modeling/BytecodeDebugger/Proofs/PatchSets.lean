import BytecodeDebugger.Proofs.LineLookup
import Mathlib.Data.Finset.Sort

/-!
# Code as instructions and a set of patched addresses

The live instructions and the side table of a piece of code are two arrays of data that change
together. Both are determined by the instructions the code was made of and by one set of addresses:
a patch inserts its address into the set if the code has it, a restoration erases it, and restoring
everything empties the set. After any sequence of changes the code is what the set says, and every
answer on the way was the one the set gives.

## Implementation notes

The set says where breakpoints stand, and nothing looks at the operation of a live instruction. So
traps among the instructions as written need no hypothesis and no case.
-/

namespace BytecodeDebugger

namespace SortedMap

universe u v

variable {κ : Type u} {α : Type v} [Ord κ] [Std.LawfulEqOrd κ] [Std.TransOrd κ]

/-- Maps in which every look-up answers alike are the same map. -/
theorem ext_get? {m n : SortedMap κ α} (h : ∀ key, m.get? key = n.get? key) : m = n := by
  -- Both lists ascend strictly, so they are equal once they have the same members.
  have hperm : m.entries.Perm n.entries := by
    refine (List.perm_ext_iff_of_nodup ?_ ?_).mpr fun entry => ?_
    · exact m.sorted.imp fun hlt heq => by simp [heq] at hlt
    · exact n.sorted.imp fun hlt heq => by simp [heq] at hlt
    · rw [← get?_eq_some_iff, ← get?_eq_some_iff, h]
  apply ext
  refine List.Perm.eq_of_pairwise (fun a b _ _ hab hba => ?_) m.sorted n.sorted hperm
  rw [Std.OrientedCmp.gt_iff_lt.mpr hab] at hba
  cases hba

end SortedMap

namespace Code

/-- A change to the patches of a piece of code. -/
inductive Change where
  | patch (address : Nat)
  | restore (address : Nat)
  | restoreAll
  deriving DecidableEq

/-- The answer to a change. -/
inductive Answer where
  | patched (result : PatchResult)
  | restored (instruction : Option Instruction)
  | restoredAll
  deriving DecidableEq

/-- One change, with its answer. -/
def change (c : Code) : Change → Answer × Code
  | .patch address => ((.patched (c.patch address).1), (c.patch address).2)
  | .restore address => ((.restored (c.restore address).1), (c.restore address).2)
  | .restoreAll => (.restoredAll, c.restoreAll)

/-- A sequence of changes, with the answers in order. -/
def changeAll (c : Code) : List Change → List Answer × Code
  | [] => ([], c)
  | first :: rest =>
    let (answer, next) := c.change first
    let (answers, last) := next.changeAll rest
    (answer :: answers, last)

namespace Change

/-- What a change makes of the set of patched addresses, in code of a given size. -/
def onSet (size : Nat) (patched : Finset Nat) : Change → Finset Nat
  | .patch address => if address < size then insert address patched else patched
  | .restore address => patched.erase address
  | .restoreAll => ∅

/-- The answer to a change, from the instructions as written and the set of patched addresses. -/
def answer (written : Array Instruction) (patched : Finset Nat) : Change → Answer
  | .patch address =>
    .patched <|
      if address < written.size then if address ∈ patched then .present else .applied
      else .outOfRange
  | .restore address => .restored (if address ∈ patched then written[address]? else none)
  | .restoreAll => .restoredAll

/-- The set of patched addresses after a sequence of changes. -/
def onSetAll (size : Nat) (patched : Finset Nat) (changes : List Change) : Finset Nat :=
  changes.foldl (onSet size) patched

/-- The answers to a sequence of changes. -/
def answers (written : Array Instruction) (patched : Finset Nat) : List Change → List Answer
  | [] => []
  | first :: rest =>
    first.answer written patched :: answers written (first.onSet written.size patched) rest

end Change

/-- Code that was written as `written` and has breakpoints at the addresses `patched`. -/
structure Overlays (written : Array Instruction) (patched : Finset Nat) (c : Code) : Prop where
  /-- Breakpoints stand within the code. -/
  lt_size : ∀ address ∈ patched, address < written.size
  /-- Where a breakpoint stands the machine executes a trap, elsewhere what was written. -/
  live : ∀ address, c.live[address]? =
    if address ∈ patched then some Instruction.breakpoint else written[address]?
  /-- The side table has the instructions that breakpoints displaced, and no others. -/
  displaced : ∀ address, c.displaced.get? address =
    if address ∈ patched then written[address]? else none

namespace Overlays

variable {written : Array Instruction} {patched : Finset Nat} {c d : Code}

/-- Instructions and patched addresses determine the code. -/
theorem unique (hc : Overlays written patched c) (hd : Overlays written patched d) : c = d := by
  apply Code.ext
  · exact Array.ext_getElem? fun i => (hc.live i).trans (hd.live i).symm
  · exact SortedMap.ext_get? fun key => (hc.displaced key).trans (hd.displaced key).symm

theorem size_eq (h : Overlays written patched c) : c.live.size = written.size := by
  -- A position is beyond the end on one side exactly if it is on the other.
  have hend : ∀ i, c.live.size ≤ i ↔ written.size ≤ i := by
    intro i
    rw [← Array.getElem?_eq_none_iff, ← Array.getElem?_eq_none_iff, h.live]
    by_cases hi : i ∈ patched
    · simpa [hi] using h.lt_size i hi
    · simp [hi]
  exact Nat.le_antisymm ((hend _).mpr (Nat.le_refl _)) ((hend _).mp (Nat.le_refl _))

theorem isPatched_iff (h : Overlays written patched c) (address : Nat) :
    c.isPatched address = true ↔ address ∈ patched := by
  rw [isPatched, SortedMap.contains_eq_isSome_get?, h.displaced]
  by_cases hmem : address ∈ patched
  · simp [hmem, h.lt_size address hmem]
  · simp [hmem]

/-- The code as it was written. -/
theorem instructionAt?_eq (h : Overlays written patched c) (address : Nat) :
    c.instructionAt? address = written[address]? := by
  rw [instructionAt?, h.displaced, h.live]
  by_cases hmem : address ∈ patched
  · simp [hmem, h.lt_size address hmem]
  · simp [hmem]

theorem instructions_eq (h : Overlays written patched c) : c.instructions = written :=
  Array.ext_getElem? fun i => (c.getElem?_instructions i).trans (h.instructionAt?_eq i)

/-- The listing of the patched addresses is the set in ascending order. -/
theorem patchedAddresses_eq (h : Overlays written patched c) :
    c.patchedAddresses = patched.sort := by
  have hsorted : c.patchedAddresses.Pairwise (· < ·) :=
    List.pairwise_map.mpr (c.displaced.sorted.imp fun hlt => Nat.compare_eq_lt.mp hlt)
  refine List.Pairwise.eq_of_mem_iff hsorted patched.sortedLT_sort.pairwise fun address => ?_
  rw [Finset.mem_sort, ← h.isPatched_iff, patchedAddresses, SortedMap.mem_keys, isPatched]

/-- Code without patches. -/
theorem ofInstructions (written : Array Instruction) :
    Overlays written ∅ (Code.ofInstructions written) where
  lt_size _ h := absurd h (Finset.notMem_empty _)
  live address := by simp [Code.ofInstructions]
  displaced address := by
    rw [if_neg (Finset.notMem_empty address)]
    rfl

theorem patch (h : Overlays written patched c) (address : Nat) :
    (c.patch address).1 =
        (if address < written.size then if address ∈ patched then .present else .applied
          else .outOfRange) ∧
      Overlays written (if address < written.size then insert address patched else patched)
        (c.patch address).2 := by
  have hpatched := h.isPatched_iff address
  rw [isPatched] at hpatched
  rw [Code.patch]
  split
  · rename_i hlt
    have hwritten : address < written.size := h.size_eq ▸ hlt
    split
    · rename_i hfound
      have hmem : address ∈ patched := hpatched.mp hfound
      simpa [hwritten, hmem] using h
    · rename_i hfree
      have hmem : address ∉ patched := fun hmem => hfree (hpatched.mpr hmem)
      -- The slot was free, so what it held is what was written there.
      have hslot : some c.live[address] = written[address]? := by
        rw [← Array.getElem?_eq_getElem hlt, h.live, if_neg hmem]
      refine ⟨(if_neg hmem).symm, fun other hother => ?_, fun other => ?_, fun other => ?_⟩
      · rcases Finset.mem_insert.mp hother with rfl | hother
        · exact hwritten
        · exact h.lt_size other hother
      · by_cases heq : address = other
        · subst heq
          simp
        · simp [heq, Ne.symm heq, h.live]
      · by_cases heq : address = other
        · subst heq
          simp [SortedMap.get?_insert, hslot]
        · simp [SortedMap.get?_insert, heq, Ne.symm heq, h.displaced]
  · rename_i hge
    have hwritten : ¬ address < written.size := h.size_eq ▸ hge
    simpa [hwritten] using h

theorem restore (h : Overlays written patched c) (address : Nat) :
    (c.restore address).1 = (if address ∈ patched then written[address]? else none) ∧
      Overlays written (patched.erase address) (c.restore address).2 := by
  have hfound := h.displaced address
  rw [Code.restore]
  split
  · rename_i hnone
    rw [hnone] at hfound
    refine ⟨hfound, ?_⟩
    have hmem : address ∉ patched := by
      intro hmem
      simp [hmem, h.lt_size address hmem] at hfound
    rwa [Finset.erase_eq_of_notMem hmem]
  · rename_i instruction hsome
    rw [hsome] at hfound
    refine ⟨hfound, ?_⟩
    have hmem : address ∈ patched := by
      by_contra hmem
      simp [hmem] at hfound
    rw [if_pos hmem] at hfound
    refine ⟨fun other hother => ?_, fun other => ?_, fun other => ?_⟩
    · exact h.lt_size other (Finset.mem_of_mem_erase hother)
    · by_cases heq : address = other
      · subst heq
        simp [h.size_eq, h.lt_size address hmem, hfound]
      · simp [heq, Ne.symm heq, h.live]
    · by_cases heq : address = other
      · subst heq
        simp [SortedMap.get?_erase]
      · simp [SortedMap.get?_erase, heq, Ne.symm heq, h.displaced]

theorem restoreAll (h : Overlays written patched c) : Overlays written ∅ c.restoreAll := by
  rw [Code.restoreAll, h.instructions_eq]
  exact ofInstructions written

/-- One change does to the code what it does to the set, and answers what the set says. -/
theorem change (h : Overlays written patched c) (first : Change) :
    (c.change first).1 = first.answer written patched ∧
      Overlays written (first.onSet written.size patched) (c.change first).2 := by
  cases first with
  | patch address =>
    obtain ⟨hanswer, hnext⟩ := h.patch address
    exact ⟨congrArg Answer.patched hanswer, hnext⟩
  | restore address =>
    obtain ⟨hanswer, hnext⟩ := h.restore address
    exact ⟨congrArg Answer.restored hanswer, hnext⟩
  | restoreAll => exact ⟨rfl, h.restoreAll⟩

/-- The same for a sequence of changes. -/
theorem changeAll (h : Overlays written patched c) (changes : List Change) :
    (c.changeAll changes).1 = Change.answers written patched changes ∧
      Overlays written (Change.onSetAll written.size patched changes)
        (c.changeAll changes).2 := by
  induction changes generalizing c patched with
  | nil => exact ⟨rfl, h⟩
  | cons first rest ih =>
    obtain ⟨hanswer, hnext⟩ := h.change first
    obtain ⟨hanswers, hlast⟩ := ih hnext
    exact ⟨congrArg₂ List.cons hanswer hanswers, hlast⟩

/-- Restoring addresses one by one takes them out of the set. -/
theorem foldl_restore (h : Overlays written patched c) (addresses : List Nat) :
    Overlays written (patched \ addresses.toFinset)
      (addresses.foldl (fun c address => (c.restore address).2) c) := by
  induction addresses generalizing c patched with
  | nil => simpa using h
  | cons first rest ih =>
    have hrest := ih (h.restore first).2
    rwa [Finset.erase_sdiff_comm, ← Finset.sdiff_insert, ← List.toFinset_cons] at hrest

/-- Restoring everything is restoring one patched address after the other. -/
theorem restoreAll_eq_foldl (h : Overlays written patched c) :
    c.restoreAll =
      c.patchedAddresses.foldl (fun c address => (c.restore address).2) c := by
  have hloop := h.foldl_restore c.patchedAddresses
  rw [h.patchedAddresses_eq, Finset.sort_toFinset, Finset.sdiff_self] at hloop
  rw [h.patchedAddresses_eq]
  exact h.restoreAll.unique hloop

/-- A restoration writes within the live instructions. -/
theorem live_restore (h : Overlays written patched c) {address : Nat} {instruction : Instruction}
    (hrestore : (c.restore address).1 = some instruction) :
    ∃ hlt : address < c.live.size,
      (c.restore address).2.live = c.live.set address instruction hlt := by
  have hmem : address ∈ patched := by
    by_contra hmem
    rw [(h.restore address).1, if_neg hmem] at hrestore
    cases hrestore
  have hlt : address < c.live.size := h.size_eq ▸ h.lt_size address hmem
  refine ⟨hlt, ?_⟩
  rw [Code.restore] at hrestore ⊢
  split at hrestore
  · cases hrestore
  · rename_i found hfound
    cases hrestore
    simp [Array.setIfInBounds, hlt]

end Overlays

/-- After any sequence of changes to code without patches, the code is determined by its instructions
and the set of its patched addresses, and every answer was the one the set gives: the side table has
what was written at the addresses of the set, the machine executes traps there and what was written
elsewhere, and the code as written is unchanged. Sequences that lead to the same set lead to the same
code. -/
theorem changes_follow_patch_set (written : Array Instruction) (changes : List Change) :
    let patched := Change.onSetAll written.size ∅ changes
    let run := (Code.ofInstructions written).changeAll changes
    let c := run.2
    run.1 = Change.answers written ∅ changes ∧
    (∀ address ∈ patched, address < written.size) ∧
    c.patchedAddresses = patched.sort ∧
    (∀ address, c.displaced.get? address =
      if address ∈ patched then written[address]? else none) ∧
    (∀ address, c.live[address]? =
      if address ∈ patched then some Instruction.breakpoint else written[address]?) ∧
    (∀ address, c.instructionAt? address = written[address]?) ∧
    c.instructions = written ∧
    (∀ address instruction, (c.restore address).1 = some instruction →
      ∃ hlt : address < c.live.size,
        (c.restore address).2.live = c.live.set address instruction hlt) ∧
    c.restoreAll = c.patchedAddresses.foldl (fun c address => (c.restore address).2) c ∧
    ∀ others, Change.onSetAll written.size ∅ others = patched →
      ((Code.ofInstructions written).changeAll others).2 = c := by
  intro patched run c
  obtain ⟨hanswers, h⟩ := (Overlays.ofInstructions written).changeAll changes
  refine ⟨hanswers, h.lt_size, h.patchedAddresses_eq, h.displaced, h.live, h.instructionAt?_eq,
    h.instructions_eq, fun _ _ => h.live_restore, h.restoreAll_eq_foldl, fun others hothers => ?_⟩
  have hother := ((Overlays.ofInstructions written).changeAll others).2
  rw [hothers] at hother
  exact hother.unique h

/-- A trap that was written is displaced like any other instruction, and comes back. -/
example :
    ((Code.ofInstructions #[Instruction.breakpoint]).changeAll
        [.patch 0, .patch 0, .patch 1, .restore 0, .restore 0]).1 =
      [.patched .applied, .patched .present, .patched .outOfRange,
        .restored (some Instruction.breakpoint), .restored none] := by
  decide

end Code

end BytecodeDebugger
