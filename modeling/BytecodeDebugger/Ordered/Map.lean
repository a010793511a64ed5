/-!
# Maps ordered by their keys

A `SortedMap` is an association list in strictly ascending key order. The order is a field of the
type, so a map has one representation only: two maps with the same bindings are equal, and the
listing order of every table of a program is the order of its keys.

## Implementation notes

`insert` walks the list once and replaces the binding of an equal key, so that the last of several
bindings of one key wins. Look-ups compare keys by `compare`; a lawful order makes that equality.
-/

namespace BytecodeDebugger

universe u v

/-- A finite map whose bindings are listed in strictly ascending key order. -/
structure SortedMap (κ : Type u) (α : Type v) [Ord κ] where
  /-- The bindings, in ascending order of their keys. -/
  entries : List (κ × α)
  /-- Keys ascend strictly, so no key is bound twice. -/
  sorted : entries.Pairwise fun a b => compare a.1 b.1 = .lt

/-- A finite set whose members are listed in strictly ascending order. -/
abbrev SortedSet (κ : Type u) [Ord κ] := SortedMap κ Unit

namespace SortedMap

variable {κ : Type u} {α : Type v} [Ord κ]

/-- Two maps with the same bindings are the same map. -/
@[ext]
theorem ext {s t : SortedMap κ α} (h : s.entries = t.entries) : s = t := by
  cases s
  cases t
  cases h
  rfl

instance [DecidableEq κ] [DecidableEq α] : DecidableEq (SortedMap κ α) := fun s t =>
  decidable_of_iff (s.entries = t.entries) ⟨ext, fun h => h ▸ rfl⟩

/-- The map without bindings. -/
def empty : SortedMap κ α := ⟨[], .nil⟩

instance : EmptyCollection (SortedMap κ α) := ⟨empty⟩

instance : Inhabited (SortedMap κ α) := ⟨empty⟩

/-- The keys in ascending order. -/
def keys (m : SortedMap κ α) : List κ :=
  m.entries.map (·.1)

/-- The binding of a key, if it has one. -/
def get? (m : SortedMap κ α) (key : κ) : Option α :=
  (m.entries.find? fun entry => compare entry.1 key == .eq).map (·.2)

/-- Whether a key is bound. -/
def contains (m : SortedMap κ α) (key : κ) : Bool :=
  m.entries.any fun entry => compare entry.1 key == .eq

/-- The first binding whose key is not below the given one. -/
def firstFrom? (m : SortedMap κ α) (key : κ) : Option (κ × α) :=
  m.entries.find? fun entry => compare entry.1 key != .lt

/-- Puts a binding into an ascending list, in place of a binding of an equal key. -/
def insertEntry (key : κ) (value : α) : List (κ × α) → List (κ × α)
  | [] => [(key, value)]
  | entry :: rest =>
    match compare key entry.1 with
    | .lt => (key, value) :: entry :: rest
    | .eq => (key, value) :: rest
    | .gt => entry :: insertEntry key value rest

theorem mem_insertEntry {key : κ} {value : α} {list : List (κ × α)} {entry : κ × α}
    (h : entry ∈ insertEntry key value list) : entry = (key, value) ∨ entry ∈ list := by
  induction list with
  | nil => simpa [insertEntry] using h
  | cons head rest ih =>
    rw [insertEntry] at h
    split at h
    · simpa using h
    · rcases List.mem_cons.mp h with h | h
      · exact .inl h
      · exact .inr (List.mem_cons_of_mem _ h)
    · rcases List.mem_cons.mp h with h | h
      · exact .inr (h ▸ List.mem_cons_self)
      · exact (ih h).imp_right (List.mem_cons_of_mem _)

theorem sorted_filter (p : κ × α → Bool) {list : List (κ × α)}
    (h : list.Pairwise fun a b => compare a.1 b.1 = .lt) :
    (list.filter p).Pairwise fun a b => compare a.1 b.1 = .lt :=
  h.sublist List.filter_sublist

/-- Drops the binding of a key, if it has one. -/
def erase (m : SortedMap κ α) (key : κ) : SortedMap κ α :=
  ⟨m.entries.filter fun entry => compare entry.1 key != .eq, sorted_filter _ m.sorted⟩

/-- A key is bound if looking it up finds something. -/
theorem contains_eq_isSome_get? (m : SortedMap κ α) (key : κ) :
    m.contains key = (m.get? key).isSome := by
  rw [get?, Option.isSome_map, contains, List.isSome_find?]

variable [Std.LawfulEqOrd κ]

theorem contains_eq_true_iff {m : SortedMap κ α} {key : κ} :
    m.contains key = true ↔ ∃ value, (key, value) ∈ m.entries := by
  simp only [contains, List.any_eq_true, beq_iff_eq]
  constructor
  · rintro ⟨⟨k, value⟩, hmem, heq⟩
    cases Std.LawfulEqCmp.eq_of_compare heq
    exact ⟨value, hmem⟩
  · rintro ⟨value, hmem⟩
    exact ⟨_, hmem, Std.ReflCmp.compare_self⟩

/-- A key bound after an erasure was bound before and is not the erased one. -/
theorem contains_of_erase {m : SortedMap κ α} {key other : κ}
    (h : (m.erase key).contains other = true) : other ≠ key ∧ m.contains other = true := by
  obtain ⟨w, hmem⟩ := contains_eq_true_iff.mp h
  obtain ⟨hmem, hne⟩ := List.mem_filter.mp hmem
  refine ⟨?_, contains_eq_true_iff.mpr ⟨w, hmem⟩⟩
  rintro rfl
  simp at hne

/-- An erased key is bound no more, all others are bound as before. -/
theorem get?_erase [DecidableEq κ] (m : SortedMap κ α) (key other : κ) :
    (m.erase key).get? other = if key = other then none else m.get? other := by
  simp only [get?, erase, List.find?_filter]
  split
  · rename_i heq
    subst heq
    rw [List.find?_eq_none.mpr]
    · rfl
    · intro entry _
      simp
  · rename_i hne
    congr 2
    funext entry
    by_cases h : compare entry.1 other = .eq
    · have hkey : entry.1 = other := Std.LawfulEqCmp.eq_of_compare h
      have hother : compare entry.1 key ≠ .eq := fun h' =>
        hne ((Std.LawfulEqCmp.eq_of_compare h').symm.trans hkey)
      simp [h, hother]
    · simp [h]

variable [Std.TransOrd κ]

theorem find?_insertEntry [DecidableEq κ] (key other : κ) (value : α) (list : List (κ × α)) :
    ((insertEntry key value list).find? fun entry => compare entry.1 other == .eq) =
      if key = other then some (key, value)
      else list.find? fun entry => compare entry.1 other == .eq := by
  induction list with
  | nil =>
    by_cases h : key = other
    · simp [insertEntry, h]
    · simp [insertEntry, h]
  | cons head rest ih =>
    by_cases h : key = other
    · subst h
      rw [insertEntry]
      split
      · simp
      · simp
      · rename_i hgt
        have hne : compare head.1 key ≠ .eq := by
          rw [Std.OrientedCmp.gt_iff_lt.mp hgt]
          decide
        simp [hne, ih]
    · rw [insertEntry]
      split
      · simp [h]
      · rename_i heq
        have hkey : key = head.1 := Std.LawfulEqCmp.eq_of_compare heq
        have hhead : head.1 ≠ other := hkey ▸ h
        simp [h, hhead]
      · simp [List.find?_cons, ih, h]

theorem sorted_insertEntry (key : κ) (value : α) {list : List (κ × α)}
    (h : list.Pairwise fun a b => compare a.1 b.1 = .lt) :
    (insertEntry key value list).Pairwise fun a b => compare a.1 b.1 = .lt := by
  induction list with
  | nil => exact List.pairwise_singleton _ _
  | cons head rest ih =>
    obtain ⟨hhead, hrest⟩ := List.pairwise_cons.mp h
    rw [insertEntry]
    split
    · rename_i hlt
      refine List.pairwise_cons.mpr ⟨fun entry hentry => ?_, h⟩
      rcases List.mem_cons.mp hentry with rfl | hentry
      · exact hlt
      · exact Std.TransCmp.lt_trans hlt (hhead entry hentry)
    · rename_i heq
      cases Std.LawfulEqCmp.eq_of_compare heq
      exact List.pairwise_cons.mpr ⟨hhead, hrest⟩
    · rename_i hgt
      refine List.pairwise_cons.mpr ⟨fun entry hentry => ?_, ih hrest⟩
      rcases mem_insertEntry hentry with rfl | hentry
      · exact Std.OrientedCmp.gt_iff_lt.mp hgt
      · exact hhead entry hentry

/-- Binds a key, in place of any earlier binding of it. -/
def insert (m : SortedMap κ α) (key : κ) (value : α) : SortedMap κ α :=
  ⟨insertEntry key value m.entries, sorted_insertEntry key value m.sorted⟩

/-- An inserted key has the inserted binding, all others are bound as before. -/
theorem get?_insert [DecidableEq κ] (m : SortedMap κ α) (key other : κ) (value : α) :
    (m.insert key value).get? other = if key = other then some value else m.get? other := by
  simp only [get?, insert, find?_insertEntry]
  split <;> rfl

/-- The map of a list of bindings; of several bindings of one key the last wins. -/
def ofList (list : List (κ × α)) : SortedMap κ α :=
  list.foldl (fun m entry => m.insert entry.1 entry.2) ∅

/-- Only the inserted key and the keys bound before are bound after an insertion. -/
theorem contains_of_insert {m : SortedMap κ α} {key other : κ} {value : α}
    (h : (m.insert key value).contains other = true) : other = key ∨ m.contains other = true := by
  obtain ⟨w, hmem⟩ := contains_eq_true_iff.mp h
  rcases mem_insertEntry hmem with heq | hmem
  · exact .inl (congrArg Prod.fst heq)
  · exact .inr (contains_eq_true_iff.mpr ⟨w, hmem⟩)

end SortedMap

end BytecodeDebugger
