import BytecodeDebugger.Proofs.Reloading

/-!
# Removing a line breakpoint

Several source lines can resolve to one location, since a span can cover several lines. The line
table has an entry for each of them, and the set of breakpoints has one entry for all. Removing a
line removes the breakpoint on its code and does not ask whether another registered line resolves to
it, and it does so also if the line itself was never registered. So between two loads it is the last
request about a location, whatever its line, that says whether the location has a breakpoint.

## Implementation notes

A registered line is mapped to its code in the loaded program at all times after a load, so a removal
finds the same location in the table and in the program, and removes one breakpoint at most.
-/

namespace BytecodeDebugger

/-! ## The code of a line does not depend on patches -/

theorem Routine.lookupLine?_unpatched (r : Routine) (file : String) (line : UInt32) :
    r.unpatched.lookupLine? file line = r.lookupLine? file line := by
  have hsize : r.unpatched.code.size = r.code.size := r.code.size_restoreAll
  rw [lookupLine?, lookupLine?, hsize]
  rfl

theorem Program.lookupLine?_unpatched (p : Program) (file : String) (line : UInt32) :
    p.unpatched.lookupLine? file line = p.lookupLine? file line := by
  have hfind (index : Nat) (routines : List Routine) :
      findLine? file line index (routines.map Routine.unpatched) =
        findLine? file line index routines := by
    induction routines generalizing index with
    | nil => rfl
    | cons r rest ih => rw [List.map_cons, findLine?, findLine?, r.lookupLine?_unpatched, ih]
  have hroutines : p.unpatched.routines.toList = p.routines.toList.map Routine.unpatched :=
    Array.toList_map
  rw [lookupLine?, lookupLine?, hroutines, hfind]

/-! ## Requests about lines -/

/-- The requests to a debugger that go by source lines. -/
inductive LineRequest where
  | set (line : SourceLine)
  | remove (line : SourceLine)
  deriving DecidableEq

namespace LineRequest

/-- The line that a request names. -/
def line : LineRequest → SourceLine
  | .set line => line
  | .remove line => line

/-- Whether a request sets a breakpoint. -/
def sets : LineRequest → Bool
  | .set _ => true
  | .remove _ => false

/-- Whether the line of a request has its code at a location. -/
def concerns (program : Program) (place : Location) (request : LineRequest) : Bool :=
  program.lookupLine? request.line.file request.line.line = some place

end LineRequest

namespace Debugger

variable {d : Debugger} {program : Program}

/-- Serves a request about a line. -/
def serveLine (d : Debugger) : LineRequest → Debugger
  | .set line => (d.setLine line).2
  | .remove line => d.removeLine line

theorem lineBreakpoints_setLine (d : Debugger) (line : SourceLine) :
    (d.setLine line).2.lineBreakpoints = d.lineBreakpoints.insert line (d.resolve? line) := by
  simp only [setLine]
  split <;> rfl

theorem lineBreakpoints_removeLine (d : Debugger) (line : SourceLine) :
    (d.removeLine line).lineBreakpoints = d.lineBreakpoints.erase line := by
  have hfold (places : List Location) (e : Debugger) :
      (places.foldl remove e).lineBreakpoints = e.lineBreakpoints := by
    induction places generalizing e with
    | nil => rfl
    | cons place rest ih => exact ih (e.remove place)
  obtain ⟨places, heq⟩ := d.removeLine_eq line
  rw [heq, hfold]

theorem hasBreakpoint_setLine (d : Debugger) (line : SourceLine) (place : Location) :
    (d.setLine line).2.hasBreakpoint place =
      (decide (d.resolve? line = some place) || d.hasBreakpoint place) := by
  simp only [setLine]
  split
  · rename_i current hcurrent
    simp only [hasBreakpoint_set, hcurrent, Option.some.injEq]
    rfl
  · rename_i hnone
    rw [hnone, decide_eq_false (Option.some_ne_none place).symm, Bool.false_or]
    rfl

/-- Removing a line removes the breakpoint on its code, if the table has no other location for it. -/
theorem hasBreakpoint_removeLine {line : SourceLine}
    (hplaced : d.placed? line = none ∨ d.placed? line = d.resolve? line) (place : Location) :
    (d.removeLine line).hasBreakpoint place =
      (decide (d.resolve? line ≠ some place) && d.hasBreakpoint place) := by
  simp only [placed?] at hplaced
  simp only [removeLine]
  cases hcurrent : d.resolve? line with
  | none =>
    have hnone : (d.lineBreakpoints.get? line).join = none := by
      rcases hplaced with hnone | heq
      · exact hnone
      · exact heq.trans hcurrent
    simp [hnone, hasBreakpoint]
  | some current =>
    have hremoved : (({ d with lineBreakpoints := d.lineBreakpoints.erase line } : Debugger).remove
        current).hasBreakpoint place = (decide (current ≠ place) && d.hasBreakpoint place) :=
      hasBreakpoint_remove _ current place
    rcases hplaced with hnone | heq
    · simp [hnone, hremoved]
    · simp [heq.trans hcurrent, hremoved]

/-! ## The line table of a loaded program -/

/-- After a load and requests about lines, every registered line is mapped to its code in the loaded
program, and no breakpoint within range is without a trap. -/
structure Lined (program : Program) (d : Debugger) : Prop where
  plain : d.vm.plain? = some program.unpatched
  lines : ∀ line resolved, d.lineBreakpoints.get? line = some resolved →
    resolved = program.lookupLine? line.file line.line
  armed : ∀ place, d.isBreakpoint place = true → d.vm.isPatched place = true

theorem Lined.resolve? (h : Lined program d) (line : SourceLine) :
    d.resolve? line = program.lookupLine? line.file line.line := by
  obtain ⟨p, hp, hunpatched⟩ := Option.map_eq_some_iff.mp h.plain
  rw [resolve?_of_program hp, ← p.lookupLine?_unpatched, hunpatched, program.lookupLine?_unpatched]

theorem Lined.placed? (h : Lined program d) (line : SourceLine) :
    d.placed? line = none ∨ d.placed? line = d.resolve? line := by
  rw [Debugger.placed?, h.resolve?]
  cases hline : d.lineBreakpoints.get? line with
  | none => exact .inl rfl
  | some resolved => exact .inr (h.lines line resolved hline)

theorem lined_load (d : Debugger) (program : Program) : Lined program (d.load program).2 := by
  let loaded : Debugger := { d with vm := (d.vm.load program).2 }
  have hload : (d.load program).2 = (d.lineBreakpoints.keys.foldl relocate loaded).rearmAll := rfl
  refine ⟨(d.sameCall_load program).plain, fun line resolved hline => ?_, fun place hplace => ?_⟩
  · rw [hload, lineBreakpoints_rearmAll,
      get?_foldl_relocate (show loaded.vm.program = some program from rfl)] at hline
    split at hline
    · cases hline
      rfl
    · rename_i hunregistered
      rw [SortedMap.mem_keys, SortedMap.contains_eq_isSome_get?] at hunregistered
      have hget : d.lineBreakpoints.get? line = some resolved := hline
      rw [hget] at hunregistered
      exact absurd rfl hunregistered
  · rw [hload] at hplace ⊢
    rw [isPatched_rearmAll, Bool.or_eq_true_iff]
    right
    rwa [isBreakpoint_of_sameCall (sameCall_rearmAll _) (breakpoints_rearmAll _)] at hplace

/-- What leaves no breakpoint behind keeps all of them armed. -/
theorem FreesNone.armed {d' : Debugger} (h : d.FreesNone d')
    (harmed : ∀ place, d.isBreakpoint place = true → d.vm.isPatched place = true)
    (place : Location) (hplace : d'.isBreakpoint place = true) : d'.vm.isPatched place = true := by
  cases hfree : d'.vm.isPatched place with
  | true => rfl
  | false =>
    obtain ⟨hbefore, hpatched⟩ := h place hplace hfree
    rw [harmed place hbefore] at hpatched
    cases hpatched

theorem Lined.serveLine (h : Lined program d) (request : LineRequest) :
    Lined program (d.serveLine request) := by
  cases request with
  | set line =>
    refine ⟨(d.sameCall_setLine line).plain.trans h.plain, fun other resolved hother => ?_, ?_⟩
    · have hget : (d.setLine line).2.lineBreakpoints.get? other = some resolved := hother
      rw [lineBreakpoints_setLine, SortedMap.get?_insert] at hget
      split at hget
      · rename_i heq
        cases hget
        rw [h.resolve?, heq]
      · exact h.lines other resolved hget
    · exact setLine_induction
        (P := fun e => ∀ place, e.isBreakpoint place = true → e.vm.isPatched place = true) line
        (fun _ => h.armed) fun e place he => (e.freesNone_set place).armed he
  | remove line =>
    refine ⟨(d.sameCall_removeLine line).plain.trans h.plain, fun other resolved hother => ?_, ?_⟩
    · have hget : (d.removeLine line).lineBreakpoints.get? other = some resolved := hother
      rw [lineBreakpoints_removeLine, SortedMap.get?_erase] at hget
      split at hget
      · cases hget
      · exact h.lines other resolved hget
    · exact removeLine_induction
        (P := fun e => ∀ place, e.isBreakpoint place = true → e.vm.isPatched place = true) line
        (fun _ => h.armed) fun e place he => (e.freesNone_remove place).armed he

/-- One request decides about the location of its line and about no other one. -/
theorem Lined.hasBreakpoint_serveLine (h : Lined program d) (request : LineRequest)
    (place : Location) :
    (d.serveLine request).hasBreakpoint place =
      if request.concerns program place then request.sets else d.hasBreakpoint place := by
  cases request with
  | set line =>
    refine (d.hasBreakpoint_setLine line place).trans ?_
    rw [h.resolve?]
    by_cases hplace : program.lookupLine? line.file line.line = some place
    · simp [LineRequest.concerns, LineRequest.line, LineRequest.sets, hplace]
    · simp [LineRequest.concerns, LineRequest.line, hplace]
  | remove line =>
    refine (hasBreakpoint_removeLine (h.placed? line) place).trans ?_
    rw [h.resolve?]
    by_cases hplace : program.lookupLine? line.file line.line = some place
    · simp [LineRequest.concerns, LineRequest.line, LineRequest.sets, hplace]
    · simp [LineRequest.concerns, LineRequest.line, hplace]

theorem Lined.foldl_serveLine (h : Lined program d) (requests : List LineRequest) :
    Lined program (requests.foldl Debugger.serveLine d) :=
  List.foldlRecOn requests Debugger.serveLine h fun _ he request _ => he.serveLine request

/-- Of a list of requests, the last one about a location decides. By induction on the requests, with
the last one split off. -/
theorem Lined.hasBreakpoint_foldl_serveLine (h : Lined program d) (requests : List LineRequest)
    (place : Location) :
    (requests.foldl Debugger.serveLine d).hasBreakpoint place =
      ((requests.filter (·.concerns program place)).getLast?.elim (d.hasBreakpoint place)
        LineRequest.sets) := by
  induction requests using List.reverseRecOn with
  | nil => rfl
  | append_singleton requests last ih =>
    rw [List.foldl_append, List.foldl_cons, List.foldl_nil,
      (h.foldl_serveLine requests).hasBreakpoint_serveLine, List.filter_append]
    by_cases hlast : last.concerns program place = true
    · rw [if_pos hlast, List.filter_cons_of_pos hlast, List.filter_nil, List.getLast?_concat]
      rfl
    · rw [if_neg hlast, List.filter_cons_of_neg hlast, List.filter_nil, List.append_nil, ih]

/-- A program is loaded into any debugger and line breakpoints are set and removed, and then one more
line is removed. Every other registered line that has code stays mapped to it. There is still a
breakpoint and a trap on that code exactly if the removed line has its code elsewhere and the last of
the requests about the location set a breakpoint there; if there was no such request, the load must
have left one. -/
theorem removeLine_keeps_iff (d₀ : Debugger) (program : Program) (requests : List LineRequest)
    {line other : SourceLine} {place : Location} (hother : other ≠ line)
    (hregistered : (requests.foldl serveLine (d₀.load program).2).lineBreakpoints.contains other =
      true)
    (hplace : program.lookupLine? other.file other.line = some place) :
    let d := (requests.foldl serveLine (d₀.load program).2).removeLine line
    d.lineBreakpoints.get? other = some (some place) ∧
      (d.hasBreakpoint place = true ∧ d.vm.isPatched place = true ↔
        program.lookupLine? line.file line.line ≠ some place ∧
          (requests.filter (·.concerns program place)).getLast?.elim
            ((d₀.load program).2.hasBreakpoint place) LineRequest.sets = true) := by
  intro d
  have hloaded := d₀.lined_load program
  have hbefore := hloaded.foldl_serveLine requests
  have hafter : Lined program d := hbefore.serveLine (.remove line)
  constructor
  · rw [lineBreakpoints_removeLine, SortedMap.get?_erase, if_neg hother.symm]
    rw [SortedMap.contains_eq_isSome_get?] at hregistered
    obtain ⟨resolved, hresolved⟩ := Option.isSome_iff_exists.mp hregistered
    rw [hresolved, hbefore.lines other resolved hresolved, hplace]
  · have hrange : d.vm.hasAddress place = true := by
      rw [Debuggee.hasAddress, hafter.plain, Option.any_some, Program.hasAddress_unpatched]
      exact Program.hasAddress_of_lookupLine? hplace
    have hpatched : d.hasBreakpoint place = true → d.vm.isPatched place = true := by
      intro hset
      apply hafter.armed place
      rw [isBreakpoint, hset, hrange]
      rfl
    rw [and_iff_left_of_imp hpatched, hasBreakpoint_removeLine (hbefore.placed? line),
      hbefore.resolve?, hloaded.hasBreakpoint_foldl_serveLine, Bool.and_eq_true_iff,
      decide_eq_true_iff]

end Debugger

/-- A program with two spans: one that covers the first two lines of a file, and one of the third
line. -/
def Program.sharedSpan : Program where
  routines := #[
    { code := .ofInstructions #[{ op := .noop }, { op := .noop }, { op := .ret }]
      spans := .ofList [(0, ⟨"f", ⟨1, 0⟩, ⟨2, 0⟩⟩), (1, .ofLine "f" 3)] }]

/-- The second line is set after the first one was removed, and the line that is removed last has its
code elsewhere, so the second line keeps its breakpoint. -/
theorem Debugger.removeLine_keeps_iff_sharedSpan :
    let requests : List LineRequest := [.set ⟨"f", 1⟩, .remove ⟨"f", 1⟩, .set ⟨"f", 2⟩]
    let d := (requests.foldl serveLine (({} : Debugger).load .sharedSpan).2).removeLine ⟨"f", 3⟩
    d.lineBreakpoints.get? ⟨"f", 2⟩ = some (some ⟨0, 0⟩) ∧
      d.hasBreakpoint ⟨0, 0⟩ = true ∧ d.vm.isPatched ⟨0, 0⟩ = true := by
  intro requests d
  obtain ⟨hmapped, hkept⟩ := removeLine_keeps_iff {} .sharedSpan requests
    (show (⟨"f", 2⟩ : SourceLine) ≠ ⟨"f", 3⟩ by decide) (by decide +kernel)
    (show Program.sharedSpan.lookupLine? "f" 2 = some ⟨0, 0⟩ by decide +kernel)
  exact ⟨hmapped, hkept.mpr (by decide +kernel)⟩

/-- A debugger with a breakpoint on each of two lines that have the same code. -/
def Debugger.onSharedSpan : Debugger :=
  ((({} : Debugger).load .sharedSpan).2.setLine ⟨"f", 1⟩).2.setLine ⟨"f", 2⟩ |>.2

/-- Removing the first of two lines with the same code takes the breakpoint of the second one away,
although that line is still mapped to its code. -/
theorem Host.Session.line_lost_sharedSpan :
    ∃ d line other place, Session (fun _ => True) (.debugger {}) false (.debugger d) ∧
      d.vm.isPaused = false ∧ other ≠ line ∧ d.lineBreakpoints.contains other = true ∧
      d.resolve? other = some place ∧ d.hasBreakpoint place = true ∧
      d.vm.isPatched place = true ∧
      (d.removeLine line).lineBreakpoints.get? other = some (some place) ∧
      (d.removeLine line).hasBreakpoint place = false ∧
      (d.removeLine line).vm.isPatched place = false := by
  have hloaded : Session (fun _ => True) (.debugger {}) false
      (.debugger (({} : Debugger).load .sharedSpan).2) :=
    .perform .new trivial
      (show Host.perform 0 (.debugger {}) (.debugger (.load .sharedSpan)) = some _ from rfl)
  have hfirst := hloaded.perform trivial
    (show Host.perform 0 _ (.debugger (.setLine ⟨"f", 1⟩)) = some _ from rfl)
  have hsecond := hfirst.perform trivial
    (show Host.perform 0 _ (.debugger (.setLine ⟨"f", 2⟩)) = some _ from rfl)
  refine ⟨Debugger.onSharedSpan, ⟨"f", 1⟩, ⟨"f", 2⟩, ⟨0, 0⟩, hsecond, ?_⟩
  decide +kernel

end BytecodeDebugger
