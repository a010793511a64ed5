import BytecodeDebugger.Proofs.Session
import Mathlib.Data.List.Induction

/-!
# Line breakpoints and reloads

Loading a program resolves every registered source line against it, one line after the other in
their order. A line that moves takes the breakpoint off the location it had before, and does not ask
whether an earlier line has come to that location by then. So a location that lines resolve to keeps
its breakpoint exactly if, of these lines, one has no line after it that gives the location up.

## Implementation notes

The statements hold of every debugger, whatever its history: the line table is ascending by its
type, so every line is resolved once, and what a line resolved to before does not depend on the
lines resolved in front of it.
-/

namespace BytecodeDebugger

/-! ## The code of a line -/

namespace Routine

theorem mem_of_findLine? {file : String} {line : UInt32} {entries : List (Nat × SourceSpan)}
    {address : Nat} (h : findLine? file line entries = some address) :
    ∃ span, (address, span) ∈ entries := by
  induction entries with
  | nil => cases h
  | cons entry rest ih =>
    have hlater (hrest : findLine? file line rest = some address) :
        ∃ span, (address, span) ∈ entry :: rest := by
      obtain ⟨span, hspan⟩ := ih hrest
      exact ⟨span, List.mem_cons_of_mem _ hspan⟩
    obtain ⟨first, span⟩ := entry
    rw [findLine?] at h
    split at h
    · exact hlater h
    · split at h
      · cases h
      · split at h
        · cases h
          exact ⟨span, List.mem_cons_self⟩
        · exact hlater h

theorem lt_size_of_lookupLine? {r : Routine} {file : String} {line : UInt32} {address : Nat}
    (h : r.lookupLine? file line = some address) : address < r.code.size := by
  obtain ⟨span, hspan⟩ := mem_of_findLine? h
  exact of_decide_eq_true (List.mem_filter.mp hspan).2

end Routine

namespace Program

theorem exists_routine_of_findLine? {file : String} {line : UInt32} {index : Nat}
    {routines : List Routine} {place : Location}
    (h : findLine? file line index routines = some place) :
    ∃ i r, routines[i]? = some r ∧ place.function = index + i ∧
      r.lookupLine? file line = some place.address := by
  induction routines generalizing index with
  | nil => cases h
  | cons r rest ih =>
    rw [findLine?] at h
    split at h
    · rename_i address haddress
      cases h
      exact ⟨0, r, rfl, rfl, haddress⟩
    · obtain ⟨i, found, hfound, hfunction, hline⟩ := ih h
      exact ⟨i + 1, found, hfound, by omega, hline⟩

/-- The code of a source line lies within the program. -/
theorem hasAddress_of_lookupLine? {p : Program} {file : String} {line : UInt32} {place : Location}
    (h : p.lookupLine? file line = some place) : p.hasAddress place = true := by
  obtain ⟨i, r, hr, hfunction, hline⟩ := exists_routine_of_findLine? h
  have hroutine : p.routine? place.function = some r := by
    rw [hfunction, Nat.zero_add, routine?, ← Array.getElem?_toList]
    exact hr
  rw [hasAddress, hroutine, Option.any_some, decide_eq_true_iff]
  exact Routine.lt_size_of_lookupLine? hline

end Program

namespace Debugger

/-- What a registered line was last resolved to. -/
def placed? (d : Debugger) (line : SourceLine) : Option Location :=
  (d.lineBreakpoints.get? line).join

/-- A line gives a location up when a program is loaded: it was resolved to it, and is not in that
program. -/
def GivesUp (d : Debugger) (program : Program) (line : SourceLine) (place : Location) : Prop :=
  d.placed? line = some place ∧ program.lookupLine? line.file line.line ≠ some place

/-! ## One line -/

variable {d : Debugger} {program : Program}

theorem resolve?_of_program (h : d.vm.program = some program) (line : SourceLine) :
    d.resolve? line = program.lookupLine? line.file line.line := by
  rw [resolve?, h, Option.bind_some]

theorem get?_relocate (d : Debugger) (line other : SourceLine) :
    (d.relocate line).lineBreakpoints.get? other =
      if line = other then some (d.resolve? line) else d.lineBreakpoints.get? other :=
  SortedMap.get?_insert d.lineBreakpoints line other (d.resolve? line)

/-- A line sets the breakpoint on the location it resolves to and removes the one on the location it
gives up. -/
theorem hasBreakpoint_relocate (d : Debugger) (line : SourceLine) (place : Location) :
    (d.relocate line).hasBreakpoint place = true ↔
      d.resolve? line = some place ∨ d.placed? line ≠ some place ∧ d.hasBreakpoint place = true := by
  rw [hasBreakpoint, relocate, placed?]
  cases hplaced : (d.lineBreakpoints.get? line).join with
  | none =>
    cases hresolved : d.resolve? line with
    | none => simp [hasBreakpoint]
    | some current => simp [hasBreakpoint, SortedMap.contains_insert]
  | some previous =>
    cases hresolved : d.resolve? line with
    | none => simp [hasBreakpoint, SortedMap.contains_erase]
    | some current =>
      by_cases hmoved : current = previous
      · subst hmoved
        by_cases hplace : current = place
        · simp [SortedMap.contains_insert, hplace]
        · simp [hasBreakpoint, SortedMap.contains_insert, hplace]
      · simp [hasBreakpoint, SortedMap.contains_insert, SortedMap.contains_erase, hmoved]

/-! ## All lines, in their order -/

theorem get?_foldl_relocate {lines : List SourceLine} (h : d.vm.program = some program)
    (line : SourceLine) :
    (lines.foldl relocate d).lineBreakpoints.get? line =
      if line ∈ lines then some (program.lookupLine? line.file line.line)
      else d.lineBreakpoints.get? line := by
  induction lines generalizing d with
  | nil => simp
  | cons first rest ih =>
    have hfirst : (d.relocate first).vm.program = some program := h
    rw [List.foldl_cons, ih hfirst, get?_relocate, resolve?_of_program h]
    by_cases hrest : line ∈ rest
    · simp [hrest]
    · by_cases heq : first = line
      · simp [heq]
      · simp [hrest, heq, Ne.symm heq]

/-- In an ascending list, an element before the last is followed by those it was followed by, and by
the last. -/
theorem exists_unfollowed_append {lines : List SourceLine} {last : SourceLine}
    (hlines : (lines ++ [last]).Pairwise fun a b => compare a b = .lt)
    (comes gives : SourceLine → Prop) :
    (∃ line ∈ lines ++ [last], comes line ∧
        ∀ later ∈ lines ++ [last], compare line later = .lt → ¬gives later) ↔
      comes last ∨ ¬gives last ∧
        ∃ line ∈ lines, comes line ∧ ∀ later ∈ lines, compare line later = .lt → ¬gives later := by
  have hlt {line : SourceLine} (hline : line ∈ lines) : compare line last = .lt :=
    (List.pairwise_append.mp hlines).2.2 line hline last List.mem_cons_self
  have hself : compare last last = .eq := Std.ReflCmp.compare_self
  constructor
  · rintro ⟨line, hline, hcomes, hkeeps⟩
    rcases List.mem_append.mp hline with hline | hline
    · refine .inr ⟨hkeeps last (by simp) (hlt hline), line, hline, hcomes, ?_⟩
      exact fun later hlater => hkeeps later (List.mem_append_left _ hlater)
    · rw [List.mem_singleton.mp hline] at hcomes
      exact .inl hcomes
  · rintro (hcomes | ⟨hlast, line, hline, hcomes, hkeeps⟩)
    · refine ⟨last, by simp, hcomes, fun later hlater hfollows => ?_⟩
      rcases List.mem_append.mp hlater with hlater | hlater
      · rw [Std.OrientedCmp.gt_iff_lt.mpr (hlt hlater)] at hfollows
        cases hfollows
      · rw [List.mem_singleton.mp hlater, hself] at hfollows
        cases hfollows
    · refine ⟨line, List.mem_append_left _ hline, hcomes, fun later hlater hfollows => ?_⟩
      rcases List.mem_append.mp hlater with hlater | hlater
      · exact hkeeps later hlater hfollows
      · rw [List.mem_singleton.mp hlater]
        exact hlast

/-- After all lines are resolved, a location has a breakpoint if a line has come to it and no later
one has given it up, or if it had one before and no line has given it up. By induction on the lines
from the front, so that the last one has the last word. -/
theorem hasBreakpoint_foldl_relocate {lines : List SourceLine}
    (hlines : lines.Pairwise fun a b => compare a b = .lt) (h : d.vm.program = some program)
    (place : Location) :
    (lines.foldl relocate d).hasBreakpoint place = true ↔
      (∃ line ∈ lines, program.lookupLine? line.file line.line = some place ∧
        ∀ later ∈ lines, compare line later = .lt → ¬d.GivesUp program later place) ∨
      (d.hasBreakpoint place = true ∧ ∀ line ∈ lines, ¬d.GivesUp program line place) := by
  induction lines using List.reverseRecOn with
  | nil => simp
  | append_singleton lines last ih =>
    have hfront := (List.pairwise_append.mp hlines).1
    have hnew : last ∉ lines := by
      intro hmem
      have hlt := (List.pairwise_append.mp hlines).2.2 last hmem last List.mem_cons_self
      have hself : compare last last = .eq := Std.ReflCmp.compare_self
      rw [hlt] at hself
      cases hself
    have hprogram : (lines.foldl relocate d).vm.program = some program := by
      rw [vm_foldl_relocate, h]
    have hplaced : (lines.foldl relocate d).placed? last = d.placed? last := by
      rw [placed?, get?_foldl_relocate h, if_neg hnew, placed?]
    rw [List.foldl_append, List.foldl_cons, List.foldl_nil, hasBreakpoint_relocate, hplaced,
      resolve?_of_program hprogram, ih hfront, exists_unfollowed_append hlines,
      List.forall_mem_append, List.forall_mem_singleton]
    by_cases hcomes : program.lookupLine? last.file last.line = some place
    · simp only [hcomes, true_or]
    · have hgives : ¬d.GivesUp program last place ↔ d.placed? last ≠ some place := by
        simp [GivesUp, hcomes]
      rw [hgives, or_iff_right hcomes, or_iff_right hcomes, and_or_left]
      exact or_congr_right and_rotate

/-! ## Loading -/

theorem lineBreakpoints_rearmAll (d : Debugger) :
    d.rearmAll.lineBreakpoints = d.lineBreakpoints := by
  have hfold (places : List Location) (e : Debugger) :
      (places.foldl (fun e place => (e.patch place).2) e).lineBreakpoints = e.lineBreakpoints := by
    induction places generalizing e with
    | nil => rfl
    | cons place rest ih => exact ih (e.patch place).2
  exact hfold _ d

/-- The registered lines are resolved in ascending order. -/
theorem pairwise_keys (m : SortedMap SourceLine (Option Location)) :
    m.keys.Pairwise fun a b => compare a b = .lt :=
  List.pairwise_map.mpr m.sorted

/-- Loading a program maps every registered line to its code in that program. A location that lines
resolve to has a breakpoint, and a trap in the program, exactly if one of these lines is followed by
none that gives the location up. -/
theorem load_resolves_lines (d : Debugger) {program : Program} (hplain : program.IsPlain) :
    (∀ line, d.lineBreakpoints.contains line = true →
      (d.load program).2.lineBreakpoints.get? line =
        some (program.lookupLine? line.file line.line)) ∧
    ∀ line place, d.lineBreakpoints.contains line = true →
      program.lookupLine? line.file line.line = some place →
      ((d.load program).2.hasBreakpoint place = true ↔
        ∃ last, d.lineBreakpoints.contains last = true ∧
          program.lookupLine? last.file last.line = some place ∧
          ∀ later, d.lineBreakpoints.contains later = true → compare last later = .lt →
            ¬d.GivesUp program later place) ∧
      (d.load program).2.vm.isPatched place = (d.load program).2.hasBreakpoint place := by
  let loaded : Debugger := { d with vm := (d.vm.load program).2 }
  have hprogram : loaded.vm.program = some program := rfl
  have hload : (d.load program).2 = (d.lineBreakpoints.keys.foldl relocate loaded).rearmAll := rfl
  have hbreakpoint (place : Location) : (d.load program).2.hasBreakpoint place =
      (d.lineBreakpoints.keys.foldl relocate loaded).hasBreakpoint place := by
    rw [hload, hasBreakpoint, breakpoints_rearmAll, hasBreakpoint]
  constructor
  · intro line hline
    rw [hload, lineBreakpoints_rearmAll, get?_foldl_relocate hprogram,
      if_pos (SortedMap.mem_keys.mpr hline)]
  · intro line place hline hplace
    constructor
    · rw [hbreakpoint, hasBreakpoint_foldl_relocate (pairwise_keys _) hprogram]
      simp only [SortedMap.mem_keys]
      constructor
      · rintro (hcomes | ⟨-, hkept⟩)
        · exact hcomes
        · exact ⟨line, hline, hplace, fun later hlater _ => hkept later hlater⟩
      · exact .inl
    · have hrange : (d.load program).2.vm.hasAddress place = true := by
        rw [(d.sameCall_load program).hasAddress]
        change Option.any _ (some program.unpatched) = true
        rw [Option.any_some, Program.hasAddress_unpatched]
        exact Program.hasAddress_of_lookupLine? hplace
      rw [isPatched_load d hplain, isBreakpoint, hrange, Bool.and_true]

end Debugger

/-- Three instructions and a return. The first two lines of a file begin at an address and at the one
after it. -/
def Program.twoLines (address : Nat) : Program where
  routines := #[
    { code := .ofInstructions #[{ op := .noop }, { op := .noop }, { op := .noop }, { op := .ret }]
      spans := .ofList [(address, .ofLine "f" 1), (address + 1, .ofLine "f" 2)] }]

/-- A debugger with a breakpoint on each of two lines. -/
def Debugger.onTwoLines : Debugger :=
  ((({} : Debugger).load (.twoLines 0)).2.setLine ⟨"f", 1⟩).2.setLine ⟨"f", 2⟩ |>.2

/-- Where both lines move down by one address, the second one is followed by no other and keeps its
breakpoint. -/
theorem Debugger.load_resolves_lines_twoLines :
    (onTwoLines.load (.twoLines 1)).2.lineBreakpoints.get? ⟨"f", 1⟩ = some (some ⟨0, 1⟩) ∧
      (onTwoLines.load (.twoLines 1)).2.hasBreakpoint ⟨0, 2⟩ = true ∧
      (onTwoLines.load (.twoLines 1)).2.vm.isPatched ⟨0, 2⟩ = true := by
  have hplain : (Program.twoLines 1).IsPlain := by decide
  have hlines : onTwoLines.lineBreakpoints.keys = [⟨"f", 1⟩, ⟨"f", 2⟩] := by decide +kernel
  have hsecond : (Program.twoLines 1).lookupLine? "f" 2 = some ⟨0, 2⟩ := by decide +kernel
  have hregistered {line : SourceLine} (h : line ∈ [⟨"f", 1⟩, ⟨"f", 2⟩]) :
      onTwoLines.lineBreakpoints.contains line = true := by
    rw [← hlines] at h
    exact SortedMap.mem_keys.mp h
  obtain ⟨hresolved, hkept⟩ := onTwoLines.load_resolves_lines hplain
  obtain ⟨hset, hpatched⟩ := hkept ⟨"f", 2⟩ ⟨0, 2⟩ (hregistered (by simp)) hsecond
  have hbreakpoint : (onTwoLines.load (.twoLines 1)).2.hasBreakpoint ⟨0, 2⟩ = true := by
    refine hset.mpr ⟨⟨"f", 2⟩, hregistered (by simp), hsecond, fun later hlater hfollows => ?_⟩
    have hmem := SortedMap.mem_keys.mpr hlater
    rw [hlines] at hmem
    rcases List.mem_cons.mp hmem with rfl | hmem
    · exact absurd hfollows (by decide +kernel)
    · cases List.mem_singleton.mp hmem
      exact absurd hfollows (by decide +kernel)
  refine ⟨?_, hbreakpoint, hpatched.trans hbreakpoint⟩
  rw [hresolved ⟨"f", 1⟩ (hregistered (by simp))]
  decide +kernel

/-- The first line comes to the location that the second one gives up. The breakpoint there is gone
after the load, although the line is mapped to it. -/
theorem Host.Session.line_lost_twoLines :
    ∃ d line place, Session (fun _ => True) (.debugger {}) false (.debugger d) ∧
      d.lineBreakpoints.contains line = true ∧ (Program.twoLines 1).IsPlain ∧
      (Program.twoLines 1).lookupLine? line.file line.line = some place ∧
      (d.load (.twoLines 1)).2.lineBreakpoints.get? line = some (some place) ∧
      (d.load (.twoLines 1)).2.hasBreakpoint place = false ∧
      (d.load (.twoLines 1)).2.vm.isPatched place = false := by
  have hloaded : Session (fun _ => True) (.debugger {}) false
      (.debugger (({} : Debugger).load (.twoLines 0)).2) :=
    .perform .new trivial
      (show Host.perform 0 (.debugger {}) (.debugger (.load (.twoLines 0))) = some _ from rfl)
  have hfirst := hloaded.perform trivial
    (show Host.perform 0 _ (.debugger (.setLine ⟨"f", 1⟩)) = some _ from rfl)
  have hsecond := hfirst.perform trivial
    (show Host.perform 0 _ (.debugger (.setLine ⟨"f", 2⟩)) = some _ from rfl)
  refine ⟨Debugger.onTwoLines, ⟨"f", 1⟩, ⟨0, 1⟩, hsecond, ?_⟩
  decide +kernel

end BytecodeDebugger
