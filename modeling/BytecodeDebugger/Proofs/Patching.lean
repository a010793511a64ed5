import BytecodeDebugger.Program.Basic

/-!
# Patched locations

A program with breakpoints in it is read as two things: the program as it was written, and the set of
its patched locations. `patch` adds a location to the set if the program has it, `restore` takes one
out, and neither changes the program as it was written.

## Implementation notes

`Program.isPatched` and `Program.hasAddress` answer for every location. A location outside the
program is not patched and has no address, so the laws below need no case for it.
-/

namespace BytecodeDebugger

namespace SortedMap

universe u v

variable {κ : Type u} {α : Type v} [Ord κ] [Std.LawfulEqOrd κ] [DecidableEq κ]

/-- After an erasure, all keys but the erased one are bound as before. -/
theorem contains_erase (m : SortedMap κ α) (key other : κ) :
    (m.erase key).contains other = (decide (key ≠ other) && m.contains other) := by
  by_cases h : key = other
  · simp [contains_eq_isSome_get?, get?_erase, h]
  · simp [contains_eq_isSome_get?, get?_erase, h]

/-- After an insertion, the inserted key is bound, and the others as before. -/
theorem contains_insert [Std.TransOrd κ] (m : SortedMap κ α) (key other : κ) (value : α) :
    (m.insert key value).contains other = (decide (key = other) || m.contains other) := by
  by_cases h : key = other
  · simp [contains_eq_isSome_get?, get?_insert, h]
  · simp [contains_eq_isSome_get?, get?_insert, h]

omit [DecidableEq κ] in
/-- The keys are exactly what is bound. -/
theorem mem_keys {m : SortedMap κ α} {key : κ} : key ∈ m.keys ↔ m.contains key = true := by
  rw [contains_eq_true_iff, keys, List.mem_map]
  constructor
  · rintro ⟨⟨k, value⟩, hmem, rfl⟩
    exact ⟨value, hmem⟩
  · rintro ⟨value, hmem⟩
    exact ⟨(key, value), hmem, rfl⟩

end SortedMap

namespace Code

/-- A patch adds its address to the patched ones, if the code has that address. -/
theorem isPatched_patch (c : Code) (address other : Nat) :
    (c.patch address).2.isPatched other =
      (c.isPatched other || decide (address = other ∧ address < c.size)) := by
  rw [patch]
  split
  · rename_i hlt
    have hlt : address < c.size := hlt
    split
    · rename_i hfound
      by_cases h : address = other
      · subst h
        simp [isPatched, hfound]
      · simp [h]
    · simp only [isPatched, SortedMap.contains_insert, hlt, and_true]
      rw [Bool.or_comm]
  · rename_i hge
    have hge : ¬ address < c.size := hge
    simp [hge]

/-- A patch was applied now if the code has the address and it was not patched before. -/
theorem patch_eq_applied_iff (c : Code) (address : Nat) :
    (c.patch address).1 = .applied ↔ address < c.size ∧ c.isPatched address = false := by
  rw [patch]
  split
  · rename_i hlt
    have hlt : address < c.size := hlt
    split
    · rename_i hfound
      simp [isPatched, hfound]
    · rename_i hfree
      simp [isPatched, hfree, hlt]
  · rename_i hge
    have hge : ¬ address < c.size := hge
    simp [hge]

/-- Restoring takes its address out of the patched ones. -/
theorem isPatched_restore (c : Code) (address other : Nat) :
    (c.restore address).2.isPatched other =
      (decide (address ≠ other) && c.isPatched other) := by
  rw [restore]
  split
  · rename_i hnone
    by_cases h : address = other
    · subst h
      simp [isPatched, SortedMap.contains_eq_isSome_get?, hnone]
    · simp [h]
  · exact SortedMap.contains_erase _ _ _

/-- There was an instruction to put back if the address was patched. -/
theorem isSome_restore (c : Code) (address : Nat) :
    (c.restore address).1.isSome = c.isPatched address := by
  rw [restore, isPatched, SortedMap.contains_eq_isSome_get?]
  split
  · rename_i hnone
    simp [hnone]
  · rename_i hsome
    simp [hsome]

/-- The live instruction is the trap of a breakpoint where the address is patched, and the
instruction as it was written elsewhere. -/
theorem get?_eq (c : Code) (address : Nat) :
    c.get? address =
      if c.isPatched address then some Instruction.breakpoint else c.instructionAt? address := by
  split
  · rename_i h
    exact c.trapped address h
  · rename_i h
    rw [isPatched, SortedMap.contains_eq_isSome_get?] at h
    simp only [Bool.not_eq_true, Option.isSome_eq_false_iff, Option.isNone_iff_eq_none] at h
    simp [get?, instructionAt?, h]

/-- Code as it was written has no patched address. -/
theorem isPatched_restoreAll (c : Code) (address : Nat) :
    c.restoreAll.isPatched address = false := rfl

/-- Code with the same instructions as written is the same once everything is put back. -/
theorem restoreAll_congr {c d : Code}
    (h : ∀ address, c.instructionAt? address = d.instructionAt? address) :
    c.restoreAll = d.restoreAll := by
  rw [restoreAll, restoreAll]
  congr 1
  apply Array.ext_getElem?
  intro i
  rw [getElem?_instructions, getElem?_instructions, h]

theorem restoreAll_patch (c : Code) (address : Nat) :
    (c.patch address).2.restoreAll = c.restoreAll :=
  restoreAll_congr (c.instructionAt?_patch address)

theorem restoreAll_restore (c : Code) (address : Nat) :
    (c.restore address).2.restoreAll = c.restoreAll :=
  restoreAll_congr (c.instructionAt?_restore address)

/-- The live instructions of code as it was written. -/
theorem get?_restoreAll (c : Code) (address : Nat) :
    c.restoreAll.get? address = c.instructionAt? address :=
  c.getElem?_instructions address

theorem size_restoreAll (c : Code) : c.restoreAll.size = c.size := by
  simp [restoreAll, size, ofInstructions, instructions]

end Code

namespace Program

/-- Whether a breakpoint displaced the instruction at a location. -/
def isPatched (p : Program) (place : Location) : Bool :=
  (p.routine? place.function).any fun r => r.code.isPatched place.address

/-- Whether the program has an instruction at a location. -/
def hasAddress (p : Program) (place : Location) : Bool :=
  (p.routine? place.function).any fun r => place.address < r.code.size

/-- The instruction at a location as it was written. -/
def instructionAt? (p : Program) (place : Location) : Option Instruction :=
  (p.routine? place.function).bind fun r => r.code.instructionAt? place.address

/-- No instruction of the program is displaced. -/
def IsPlain (p : Program) : Prop :=
  ∀ place, p.isPatched place = false

/-- The program was written without traps. -/
def TrapFree (p : Program) : Prop :=
  ∀ place i, p.instructionAt? place = some i → i.op ≠ .trap

/-- Changing the code of one routine leaves the others alone. -/
theorem routine?_modifyCode (p : Program) (index other : Nat) (f : Code → Code) :
    (p.modifyCode index f).routine? other =
      (p.routine? other).map fun r => if index = other then { r with code := f r.code } else r := by
  simp only [modifyCode, routine?, Array.getElem?_modify]
  split
  · rfl
  · simp

/-- A routine that does not exist has no code to change. -/
theorem modifyCode_of_routine?_eq_none {p : Program} {index : Nat} (h : p.routine? index = none)
    (f : Code → Code) : p.modifyCode index f = p := by
  have hroutines : (p.modifyCode index f).routines = p.routines := by
    apply Array.ext_getElem?
    intro i
    change (p.modifyCode index f).routine? i = p.routine? i
    rw [routine?_modifyCode]
    by_cases hi : index = i
    · rw [← hi, h, Option.map_none]
    · simp [hi]
  have hrest : p.modifyCode index f =
      { p with routines := (p.modifyCode index f).routines } := rfl
  rw [hrest, hroutines]

/-- Patching changes the code of one routine. -/
theorem patch_snd (p : Program) (place : Location) :
    (p.patch place).2 = p.modifyCode place.function fun c => (c.patch place.address).2 := by
  rw [patch]
  split
  · rename_i hnone
    exact (modifyCode_of_routine?_eq_none hnone _).symm
  · rfl

/-- Restoring changes the code of one routine. -/
theorem restore_snd (p : Program) (place : Location) :
    (p.restore place).2 = p.modifyCode place.function fun c => (c.restore place.address).2 := by
  rw [restore]
  split
  · rename_i hnone
    exact (modifyCode_of_routine?_eq_none hnone _).symm
  · rfl

/-- A patch adds its location to the patched ones, if the program has it. -/
theorem isPatched_patch (p : Program) (place other : Location) :
    (p.patch place).2.isPatched other =
      (p.isPatched other || (decide (place = other) && p.hasAddress place)) := by
  obtain ⟨f, a⟩ := place
  obtain ⟨g, b⟩ := other
  simp only [isPatched, hasAddress, patch_snd, routine?_modifyCode, Location.mk.injEq]
  by_cases hfg : f = g
  · subst hfg
    cases hr : p.routine? f with
    | none => simp
    | some r => simp [Code.isPatched_patch]
  · cases hr : p.routine? g with
    | none => simp [hfg]
    | some r => simp [hfg]

/-- Restoring takes its location out of the patched ones. -/
theorem isPatched_restore (p : Program) (place other : Location) :
    (p.restore place).2.isPatched other = (decide (place ≠ other) && p.isPatched other) := by
  obtain ⟨f, a⟩ := place
  obtain ⟨g, b⟩ := other
  simp only [isPatched, restore_snd, routine?_modifyCode, ne_eq, Location.mk.injEq]
  by_cases hfg : f = g
  · subst hfg
    cases hr : p.routine? f with
    | none => simp
    | some r => simp [Code.isPatched_restore]
  · cases hr : p.routine? g with
    | none => simp
    | some r => simp [hfg]

/-- A trap was put in place now if the program has the location and it was not patched before. -/
theorem patch_fst (p : Program) (place : Location) :
    (p.patch place).1 = (p.hasAddress place && !p.isPatched place) := by
  rw [patch, hasAddress, isPatched]
  split
  · rename_i hnone
    simp [hnone]
  · rename_i r hsome
    rw [hsome, Bool.eq_iff_iff]
    simp [Code.patch_eq_applied_iff]

/-- There was an instruction to put back if the location was patched. -/
theorem restore_fst (p : Program) (place : Location) :
    (p.restore place).1 = p.isPatched place := by
  rw [restore, isPatched]
  split
  · rename_i hnone
    simp [hnone]
  · rename_i r hsome
    simp [hsome, Code.isSome_restore]

/-- The routines of the program as it was written. -/
theorem routine?_unpatched (p : Program) (index : Nat) :
    p.unpatched.routine? index = (p.routine? index).map Routine.unpatched := by
  simp [unpatched, routine?]

theorem unpatched_modifyCode (p : Program) (index : Nat) {f : Code → Code}
    (hf : ∀ c, (f c).restoreAll = c.restoreAll) :
    (p.modifyCode index f).unpatched = p.unpatched := by
  have hroutines : (p.modifyCode index f).unpatched.routines = p.unpatched.routines := by
    apply Array.ext_getElem?
    intro i
    change (p.modifyCode index f).unpatched.routine? i = p.unpatched.routine? i
    rw [routine?_unpatched, routine?_unpatched, routine?_modifyCode, Option.map_map]
    congr 1
    funext r
    by_cases h : index = i
    · simp [h, Routine.unpatched, hf]
    · simp [h]
  have hrest : (p.modifyCode index f).unpatched =
      { p.unpatched with routines := (p.modifyCode index f).unpatched.routines } := rfl
  rw [hrest, hroutines]

/-- Patching does not change the program as it was written. -/
theorem unpatched_patch (p : Program) (place : Location) :
    (p.patch place).2.unpatched = p.unpatched := by
  rw [patch_snd]
  exact unpatched_modifyCode p _ fun c => c.restoreAll_patch _

/-- Restoring does not change the program as it was written. -/
theorem unpatched_restore (p : Program) (place : Location) :
    (p.restore place).2.unpatched = p.unpatched := by
  rw [restore_snd]
  exact unpatched_modifyCode p _ fun c => c.restoreAll_restore _

/-- Which locations a program has does not depend on its patches. -/
theorem hasAddress_unpatched (p : Program) (place : Location) :
    p.unpatched.hasAddress place = p.hasAddress place := by
  rw [hasAddress, hasAddress, routine?_unpatched]
  cases hr : p.routine? place.function with
  | none => rfl
  | some r => simp [Routine.unpatched, Code.size_restoreAll]

/-- What was written does not depend on the patches. -/
theorem instructionAt?_unpatched (p : Program) (place : Location) :
    p.unpatched.instructionAt? place = p.instructionAt? place := by
  rw [instructionAt?, instructionAt?, routine?_unpatched]
  cases hr : p.routine? place.function with
  | none => rfl
  | some r =>
    change r.code.restoreAll.instructionAt? place.address = r.code.instructionAt? place.address
    rw [← Code.get?_restoreAll r.code, Code.get?_eq, Code.isPatched_restoreAll]
    rfl

/-- A patched location lies within the program. -/
theorem hasAddress_of_isPatched {p : Program} {place : Location} (h : p.isPatched place = true) :
    p.hasAddress place = true := by
  rw [isPatched] at h
  rw [hasAddress]
  cases hr : p.routine? place.function with
  | none => simp [hr] at h
  | some r =>
    rw [hr] at h
    simpa using Code.lt_size_of_isPatched h

/-- The listed locations are exactly the patched ones. -/
theorem mem_patchedLocations {p : Program} {place : Location} :
    place ∈ p.patchedLocations ↔ p.isPatched place = true := by
  rw [isPatched, patchedLocations, List.mem_flatMap]
  constructor
  · rintro ⟨⟨r, index⟩, hr, hmem⟩
    obtain ⟨address, haddress, rfl⟩ := List.mem_map.mp hmem
    have hroutine : p.routine? index = some r := by
      simpa [routine?] using List.mem_zipIdx_iff_getElem?.mp hr
    simpa [hroutine, Code.isPatched] using SortedMap.mem_keys.mp haddress
  · intro h
    obtain ⟨r, hr, hpatched⟩ := (Option.any_eq_true _ _).mp h
    refine ⟨(r, place.function), ?_, List.mem_map.mpr ⟨place.address, ?_, rfl⟩⟩
    · rw [List.mem_zipIdx_iff_getElem?]
      simpa [routine?] using hr
    · exact SortedMap.mem_keys.mpr hpatched

/-- A program without patches lists no patched location. -/
theorem isPlain_iff {p : Program} : p.IsPlain ↔ p.patchedLocations = [] := by
  rw [List.eq_nil_iff_forall_not_mem]
  simp only [IsPlain, mem_patchedLocations, Bool.not_eq_true]

instance (p : Program) : Decidable p.IsPlain :=
  decidable_of_iff _ isPlain_iff.symm

/-- Whether a program was written without traps can be read off its instructions. -/
theorem trapFree_iff {p : Program} :
    p.TrapFree ↔ ∀ r ∈ p.routines, ∀ i ∈ r.code.instructions, i.op ≠ .trap := by
  constructor
  · intro h r hr i hi
    obtain ⟨index, hindex⟩ := Array.mem_iff_getElem?.mp hr
    obtain ⟨address, haddress⟩ := Array.mem_iff_getElem?.mp hi
    refine h ⟨index, address⟩ i ?_
    rw [instructionAt?, routine?, hindex, Option.bind_some, ← haddress,
      Code.getElem?_instructions]
  · intro h place i hi
    obtain ⟨r, hr, hcode⟩ := Option.bind_eq_some_iff.mp hi
    refine h r (Array.mem_of_getElem? hr) i ?_
    rw [← Code.getElem?_instructions] at hcode
    exact Array.mem_of_getElem? hcode

instance (p : Program) : Decidable p.TrapFree :=
  decidable_of_iff _ trapFree_iff.symm

/-- The program of one routine, exported under a name. -/
def single (name : String) (instructions : Array Instruction) : Program where
  routines := #[{ code := .ofInstructions instructions }]
  exports := SortedMap.insert ∅ name 0

/-- A program that adds two numbers. -/
def sum : Program :=
  single "sum" #[{ op := .push, immediate := 1 }, { op := .push, immediate := 2 }, { op := .add },
    { op := .ret }]

end Program

end BytecodeDebugger
