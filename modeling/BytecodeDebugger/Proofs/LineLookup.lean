import BytecodeDebugger.Proofs.Reloading

/-!
# The code of a source line

The search for the code of a source line goes through the routines and, in each of them, through the
spans from the lowest address on. It finds the least location that shows the line: a span of the file
covers it, and no span of another file stands at a lower address of the routine. Spans without a file
do not count, neither for the line nor against it, and neither do spans behind the end of the code.

## Implementation notes

A routine that shows the line nowhere is passed over as a whole, also if its search ended at a span
of another file. So the least location is the least address of the first routine that shows the line.
-/

namespace BytecodeDebugger

namespace SortedMap

universe u v

variable {κ : Type u} {α : Type v} [Ord κ] [Std.LawfulEqOrd κ]

/-- What a key is bound to is its binding in the list. -/
theorem get?_eq_some_iff {m : SortedMap κ α} {key : κ} {value : α} :
    m.get? key = some value ↔ (key, value) ∈ m.entries := by
  rw [get?, Option.map_eq_some_iff]
  constructor
  · rintro ⟨⟨k, v⟩, hfound, rfl⟩
    have hkey : compare k key = .eq := by
      simpa using List.find?_some hfound
    cases Std.LawfulEqCmp.eq_of_compare hkey
    exact List.mem_of_find?_eq_some hfound
  · intro hmem
    refine ⟨(key, value), ?_, rfl⟩
    obtain ⟨before, behind, hentries⟩ := List.append_of_mem hmem
    have hsorted := m.sorted
    rw [hentries] at hsorted ⊢
    apply List.find?_eq_some_iff_append.mpr
    refine ⟨beq_iff_eq.mpr Std.ReflCmp.compare_self, before, behind, rfl, ?_⟩
    intro entry hentry
    rw [(List.pairwise_append.mp hsorted).2.2 entry hentry (key, value) List.mem_cons_self]
    rfl

end SortedMap

/-- The answer of a search for the least value with a property: there is none only if nothing has
the property. -/
def Least {α : Type} [Ord α] (P : α → Prop) : Option α → Prop
  | some a => P a ∧ ∀ b, P b → (compare a b).isLE = true
  | none => ∀ a, ¬P a

namespace Least

variable {α : Type} [Ord α] {P : α → Prop} {answer : Option α}

theorem eq_some_iff [Std.OrientedOrd α] [Std.LawfulEqOrd α] (h : Least P answer) {a : α} :
    answer = some a ↔ P a ∧ ∀ b, P b → (compare a b).isLE = true := by
  constructor
  · rintro rfl
    exact h
  · rintro ⟨ha, hleast⟩
    cases answer with
    | none => exact absurd ha (h a)
    | some found =>
      obtain ⟨hfound, hle⟩ := h
      have heq := Std.OrientedCmp.isLE_antisymm (hle a ha) (hleast found hfound)
      rw [Std.LawfulEqCmp.eq_of_compare heq]

theorem eq_none_iff (h : Least P answer) : answer = none ↔ ∀ a, ¬P a := by
  constructor
  · rintro rfl
    exact h
  · intro hnone
    cases answer with
    | none => rfl
    | some found => exact absurd h.1 (hnone found)

end Least

/-- Locations are compared by their routines, and within a routine by their addresses. -/
theorem Location.isLE_compare_iff {place other : Location} :
    (compare place other).isLE = true ↔ place.function < other.function ∨
      place.function = other.function ∧ place.address ≤ other.address := by
  have hcompare : compare place other = (compare place.function other.function).then
      (compare place.address other.address) := rfl
  rw [hcompare]
  rcases Nat.lt_trichotomy place.function other.function with hlt | heq | hgt
  · simp [Nat.compare_eq_lt.mpr hlt, hlt]
  · simp [heq, Nat.isLE_compare]
  · simp [Nat.compare_eq_gt.mpr hgt]
    omega

/-- A span is of a line of a file. -/
structure SourceSpan.IsOf (s : SourceSpan) (file : String) (line : UInt32) : Prop where
  file_ne : file ≠ ""
  file_eq : s.file = file
  start_le : s.start.line ≤ line
  le_stop : line ≤ s.stop.line

/-! ## One routine -/

/-- A routine shows a line at an address: the address lies within the code and has a span of the
line, and no span at a lower address is of another file. -/
structure Routine.ShowsLine (r : Routine) (file : String) (line : UInt32) (address : Nat) :
    Prop where
  lt_size : address < r.code.size
  span : ∃ span, r.spanAt? address = some span ∧ span.IsOf file line
  below : ∀ lower span, lower < address → r.spanAt? lower = some span → span.file ≠ "" →
    span.file = file

namespace Routine

variable {r : Routine} {file : String} {line : UInt32} {address : Nat}

/-- A list of spans shows a line at an address. -/
structure ShownIn (file : String) (line : UInt32) (entries : List (Nat × SourceSpan))
    (address : Nat) : Prop where
  span : ∃ span, (address, span) ∈ entries ∧ span.IsOf file line
  below : ∀ entry ∈ entries, entry.1 < address → entry.2.file ≠ "" → entry.2.file = file

/-- A span in front of the others that is neither of the line nor of another file is passed over. -/
theorem shownIn_cons_iff {lowest : Nat} {span : SourceSpan} {rest : List (Nat × SourceSpan)}
    (hspan : ¬span.IsOf file line) (hfile : span.file ≠ "" → span.file = file) :
    ShownIn file line ((lowest, span) :: rest) address ↔ ShownIn file line rest address := by
  constructor
  · rintro ⟨⟨found, hmem, hfound⟩, hbelow⟩
    rcases List.mem_cons.mp hmem with heq | hmem
    · cases heq
      exact absurd hfound hspan
    · exact ⟨⟨found, hmem, hfound⟩, fun entry hentry => hbelow entry (List.mem_cons_of_mem _ hentry)⟩
  · rintro ⟨⟨found, hmem, hfound⟩, hbelow⟩
    refine ⟨⟨found, List.mem_cons_of_mem _ hmem, hfound⟩, ?_⟩
    intro entry hentry hlower
    rcases List.mem_cons.mp hentry with rfl | hentry
    · exact hfile
    · exact hbelow entry hentry hlower

/-- In an ascending list of spans the search finds the least address that shows the line. -/
theorem least_findLine? (file : String) (line : UInt32) {entries : List (Nat × SourceSpan)}
    (hsorted : entries.Pairwise fun a b => compare a.1 b.1 = .lt) :
    Least (ShownIn file line entries) (findLine? file line entries) := by
  induction entries with
  | nil =>
    rintro address ⟨⟨span, hspan, -⟩, -⟩
    cases hspan
  | cons entry rest ih =>
    obtain ⟨lowest, span⟩ := entry
    obtain ⟨hlowest, hrest⟩ := List.pairwise_cons.mp hsorted
    have hpassed (hspan : ¬span.IsOf file line) (hfile : span.file ≠ "" → span.file = file) :
        Least (ShownIn file line ((lowest, span) :: rest)) (findLine? file line rest) := by
      rw [show ShownIn file line ((lowest, span) :: rest) = ShownIn file line rest from
        funext fun _ => propext (shownIn_cons_iff hspan hfile)]
      exact ih hrest
    rw [findLine?]
    split
    · rename_i hempty
      have hempty : span.file = "" := by
        simpa [SourceSpan.hasFile] using hempty
      refine hpassed (fun hspan => ?_) (absurd hempty)
      exact hspan.file_ne (hspan.file_eq.symm.trans hempty)
    · rename_i hfile
      have hfile : span.file ≠ "" := by
        simpa [SourceSpan.hasFile] using hfile
      split
      · -- The search ends here, and rightly so: whatever is behind has this span below it.
        rename_i hother
        rintro address ⟨⟨found, hmem, hfound⟩, hbelow⟩
        rcases List.mem_cons.mp hmem with heq | hmem
        · cases heq
          exact hother hfound.file_eq
        · have hlower := Nat.compare_eq_lt.mp (hlowest _ hmem)
          exact hother (hbelow (lowest, span) List.mem_cons_self hlower hfile)
      · rename_i hsame
        have hsame : span.file = file := by simpa using hsame
        split
        · rename_i hcovers
          have hcovers : span.start.line ≤ line ∧ line ≤ span.stop.line := by
            simpa [SourceSpan.covers] using hcovers
          have hle : ∀ entry ∈ (lowest, span) :: rest, lowest ≤ entry.1 := by
            intro entry hentry
            rcases List.mem_cons.mp hentry with rfl | hentry
            · exact Nat.le_refl _
            · exact Nat.le_of_lt (Nat.compare_eq_lt.mp (hlowest entry hentry))
          constructor
          · exact ⟨⟨span, List.mem_cons_self, hsame ▸ hfile, hsame, hcovers.1, hcovers.2⟩,
              fun entry hentry hlower => absurd hlower (Nat.not_lt_of_le (hle entry hentry))⟩
          · rintro address ⟨⟨found, hmem, -⟩, -⟩
            exact Nat.isLE_compare.mpr (hle _ hmem)
        · rename_i hcovers
          refine hpassed (fun hspan => hcovers ?_) (fun _ => hsame)
          simpa [SourceSpan.covers] using And.intro hspan.start_le hspan.le_stop

/-- The spans that are searched show a line where the routine does. -/
theorem shownIn_iff :
    ShownIn file line (r.spans.entries.filter fun entry => entry.1 < r.code.size) address ↔
      r.ShowsLine file line address := by
  constructor
  · rintro ⟨⟨span, hmem, hspan⟩, hbelow⟩
    obtain ⟨hmem, hlt⟩ := List.mem_filter.mp hmem
    have hlt : address < r.code.size := of_decide_eq_true hlt
    refine ⟨hlt, ⟨span, SortedMap.get?_eq_some_iff.mpr hmem, hspan⟩, ?_⟩
    intro lower other hlower hother
    refine hbelow (lower, other) (List.mem_filter.mpr ⟨?_, ?_⟩) hlower
    · exact SortedMap.get?_eq_some_iff.mp hother
    · exact decide_eq_true (Nat.lt_trans hlower hlt)
  · rintro ⟨hlt, ⟨span, hget, hspan⟩, hbelow⟩
    refine ⟨⟨span, List.mem_filter.mpr ⟨?_, decide_eq_true hlt⟩, hspan⟩, ?_⟩
    · exact SortedMap.get?_eq_some_iff.mp hget
    · rintro ⟨lower, other⟩ hentry hlower
      have hother := SortedMap.get?_eq_some_iff.mpr (List.mem_filter.mp hentry).1
      exact hbelow lower other hlower hother

/-- The search in a routine finds the least address at which it shows the line. -/
theorem least_lookupLine? (r : Routine) (file : String) (line : UInt32) :
    Least (r.ShowsLine file line) (r.lookupLine? file line) := by
  have hleast := least_findLine? file line
    (SortedMap.sorted_filter (fun entry => entry.1 < r.code.size) r.spans.sorted)
  rwa [show ShownIn file line _ = r.ShowsLine file line from
    funext fun _ => propext shownIn_iff] at hleast

end Routine

/-! ## All routines -/

namespace Program

/-- A program shows a line at a location. -/
def ShowsLine (p : Program) (file : String) (line : UInt32) (place : Location) : Prop :=
  ∃ r, p.routine? place.function = some r ∧ r.ShowsLine file line place.address

/-- Numbered routines show a line at a location. -/
def ShownIn (file : String) (line : UInt32) (index : Nat) (routines : List Routine)
    (place : Location) : Prop :=
  ∃ i r, routines[i]? = some r ∧ place.function = index + i ∧ r.ShowsLine file line place.address

variable {file : String} {line : UInt32} {index : Nat} {place : Location}

/-- The first of numbered routines shows a line, or one of the others does. -/
theorem shownIn_cons_iff {first : Routine} {rest : List Routine} :
    ShownIn file line index (first :: rest) place ↔
      place.function = index ∧ first.ShowsLine file line place.address ∨
        ShownIn file line (index + 1) rest place := by
  constructor
  · rintro ⟨i, r, hr, hfunction, hline⟩
    cases i with
    | zero =>
      cases hr
      exact .inl ⟨hfunction, hline⟩
    | succ i => exact .inr ⟨i, r, hr, by omega, hline⟩
  · rintro (⟨hfunction, hline⟩ | ⟨i, r, hr, hfunction, hline⟩)
    · exact ⟨0, first, rfl, hfunction, hline⟩
    · exact ⟨i + 1, r, hr, by omega, hline⟩

/-- The search finds the least location at which numbered routines show the line. -/
theorem least_findLine? (file : String) (line : UInt32) (index : Nat) (routines : List Routine) :
    Least (ShownIn file line index routines) (findLine? file line index routines) := by
  induction routines generalizing index with
  | nil =>
    rintro place ⟨i, r, hr, -⟩
    cases hr
  | cons first rest ih =>
    have hfirst := first.least_lookupLine? file line
    have hrest := ih (index + 1)
    rw [show ShownIn file line index (first :: rest) = _ from
      funext fun _ => propext shownIn_cons_iff, findLine?]
    cases haddress : first.lookupLine? file line with
    | some address =>
      rw [haddress] at hfirst
      refine ⟨.inl ⟨rfl, hfirst.1⟩, ?_⟩
      rintro other (⟨hfunction, hline⟩ | ⟨i, r, hr, hfunction, hline⟩)
      · have hle := Nat.isLE_compare.mp (hfirst.2 other.address hline)
        exact Location.isLE_compare_iff.mpr (.inr ⟨hfunction.symm, hle⟩)
      · exact Location.isLE_compare_iff.mpr (.inl (by simp only; omega))
    | none =>
      rw [haddress] at hfirst
      have hothers : (fun place : Location => place.function = index ∧
            first.ShowsLine file line place.address ∨ ShownIn file line (index + 1) rest place) =
          ShownIn file line (index + 1) rest :=
        funext fun place => propext (or_iff_right fun h => hfirst place.address h.2)
      rw [hothers]
      exact hrest

/-- The search finds the least location at which the program shows the line. -/
theorem least_lookupLine? (p : Program) (file : String) (line : UInt32) :
    Least (p.ShowsLine file line) (p.lookupLine? file line) := by
  have hshown : ShownIn file line 0 p.routines.toList = p.ShowsLine file line := by
    funext place
    simp [ShownIn, ShowsLine, routine?]
  rw [← hshown]
  exact least_findLine? file line 0 p.routines.toList

end Program

/-! ## Breakpoints on lines -/

namespace Debugger

variable {d : Debugger} {line : SourceLine} {place : Location}

/-- The code of a line lies within the loaded program. -/
theorem hasAddress_of_resolve? (h : d.resolve? line = some place) :
    d.vm.hasAddress place = true := by
  obtain ⟨program, hprogram, hplace⟩ := Option.bind_eq_some_iff.mp h
  rw [Debuggee.hasAddress, Debuggee.plain?, hprogram, Option.map_some, Option.any_some,
    Program.hasAddress_unpatched]
  exact Program.hasAddress_of_lookupLine? hplace

/-- Setting a breakpoint by line sets it on the code of the line. -/
theorem setLine_of_resolve? (h : d.resolve? line = some place) :
    d.setLine line = (some place,
      set { d with lineBreakpoints := d.lineBreakpoints.insert line (some place) } place) := by
  simp only [setLine, h]

theorem resolve?_of_setLine (h : (d.setLine line).1 = some place) :
    d.resolve? line = some place := by
  cases hresolved : d.resolve? line with
  | none =>
    simp only [setLine, hresolved] at h
    cases h
  | some found => rwa [setLine_of_resolve? hresolved] at h

end Debugger

/-- Looking for a line of a file in a program finds a location exactly if it is, by routine and then
by address, the least one at which the program shows the line, and finds nothing exactly if the
program shows the line nowhere. So a breakpoint that was set by line is in the set of breakpoints,
lies within the program and is patched into it, whatever the state of the debugger. -/
theorem line_lookup_least (file : String) (line : UInt32) :
    (∀ (p : Program) (place : Location), p.lookupLine? file line = some place ↔
      p.ShowsLine file line place ∧ ∀ other, p.ShowsLine file line other →
        place.function < other.function ∨
          place.function = other.function ∧ place.address ≤ other.address) ∧
      (∀ p : Program, p.lookupLine? file line = none ↔ ∀ place, ¬p.ShowsLine file line place) ∧
      ∀ (d : Debugger) (place : Location), (d.setLine ⟨file, line⟩).1 = some place →
        (d.setLine ⟨file, line⟩).2.hasBreakpoint place = true ∧
          (d.setLine ⟨file, line⟩).2.vm.hasAddress place = true ∧
          (d.setLine ⟨file, line⟩).2.vm.isPatched place = true := by
  refine ⟨?_, ?_, ?_⟩
  · intro p place
    simp only [← Location.isLE_compare_iff]
    exact (p.least_lookupLine? file line).eq_some_iff
  · intro p
    exact (p.least_lookupLine? file line).eq_none_iff
  · intro d place hplace
    have hresolved := Debugger.resolve?_of_setLine hplace
    have haddress := Debugger.hasAddress_of_resolve? hresolved
    rw [Debugger.setLine_of_resolve? hresolved]
    refine ⟨?_, ?_, ?_⟩
    · rw [Debugger.hasBreakpoint_set, decide_eq_true rfl, Bool.true_or]
    · rw [(Debugger.sameCall_set _ place).hasAddress]
      exact haddress
    · rw [Debugger.isPatched_set, decide_eq_true rfl, Bool.true_and, Bool.or_eq_true]
      exact .inr haddress

/-- Two routines with spans of two files. The first has the line of the one file behind a span of the
other. The second has a span without a file, one whose end lies before its start, two that cover the
line, and one behind the end of its code. -/
def Program.twoFiles : Program where
  routines := #[
    { code := .ofInstructions #[{ op := .noop }, { op := .noop }, { op := .ret }]
      spans := .ofList [(0, .ofLine "" 5), (1, .ofLine "g" 5), (2, .ofLine "f" 5)] },
    { code := .ofInstructions #[{ op := .noop }, { op := .noop }, { op := .noop }, { op := .ret }]
      spans := .ofList [(0, .ofLine "" 5), (1, ⟨"f", ⟨6, 0⟩, ⟨4, 0⟩⟩), (2, ⟨"f", ⟨4, 0⟩, ⟨6, 0⟩⟩),
        (3, .ofLine "f" 5), (4, .ofLine "f" 7)] }]

/-- The line of the one file is found in the second routine, at the lower of its two addresses, and a
line that only a span behind the end of the code has is not found. A breakpoint that is set by the
line is patched there. -/
theorem line_lookup_least_twoFiles :
    Program.twoFiles.lookupLine? "f" 5 = some ⟨1, 2⟩ ∧
      Program.twoFiles.ShowsLine "f" 5 ⟨1, 2⟩ ∧ ¬Program.twoFiles.ShowsLine "f" 5 ⟨0, 2⟩ ∧
      (∀ place, ¬Program.twoFiles.ShowsLine "f" 7 place) ∧
      (Debugger.setLine (Debugger.load {} .twoFiles).2 ⟨"f", 5⟩).2.vm.isPatched ⟨1, 2⟩ = true := by
  obtain ⟨hsome, -, hset⟩ := line_lookup_least "f" 5
  obtain ⟨-, hnone, -⟩ := line_lookup_least "f" 7
  have hfound : Program.twoFiles.lookupLine? "f" 5 = some ⟨1, 2⟩ := by decide +kernel
  obtain ⟨hshows, hleast⟩ := (hsome _ _).mp hfound
  refine ⟨hfound, hshows, ?_, ?_, ?_⟩
  · intro hlower
    have hle := hleast ⟨0, 2⟩ hlower
    simp at hle
  · exact (hnone _).mp (by decide +kernel)
  · exact (hset _ ⟨1, 2⟩ (by decide +kernel)).2.2

end BytecodeDebugger
