import BytecodeDebugger.Proofs.FirstStop
import Mathlib.Order.Bounds.Basic

/-!
# The first trap on the way

A program can have traps of its own, and a debugger puts others into it. A machine that meets a trap
of the program, as it was written, stays where it is for ever. An injected trap stops it as well,
but only until the trap is taken out.

While a call is stepped, the trap at the location of the machine is taken out for one instruction,
and afterwards the location is patched again if it has a breakpoint. So of the injected traps that a
machine can come to there are two kinds: those that stood there at the start, and those of
breakpoints that it has left. `Machine.Injected` says so of a trace, and `Machine.Tracks` of the
patches on the way.
-/

namespace BytecodeDebugger

namespace Machine

/-- The next instruction of a machine, as it was written, is a trap. -/
def AtTrap (program : Program) (m : Machine) : Prop :=
  ∃ place i, m.location? = some place ∧ program.instructionAt? place = some i ∧ i.op = .trap

/-- After so many instructions an injected trap stands at a location: it is one of those at the
start, or the location is marked and the machine has left it. -/
def Injected (program : Program) (traps marks : Location → Bool) (start : Machine) (k : Nat)
    (place : Location) : Prop :=
  traps place = true ∨ marks place = true ∧
    ∃ i mid, i < k ∧ start.after program i = some mid ∧ mid.location? = some place

/-- The machine comes to an injected trap by the last of so many instructions. -/
def RunsInto (program : Program) (traps marks : Location → Bool) (start : Machine) (k : Nat) :
    Prop :=
  ∃ m place, start.after program k = some m ∧ m.location? = some place ∧
    start.Injected program traps marks k place

/-- The first trap that a machine comes to, one of the program or an injected one, is the one after
so many instructions. -/
def FirstTrap (program : Program) (traps marks : Location → Bool) (start : Machine) (k : Nat) :
    Prop :=
  IsLeast {k | (∃ m, start.after program k = some m ∧ m.AtTrap program) ∨
    start.RunsInto program traps marks k} k

/-- Up to a trap after so many instructions, a machine comes to one to stop at. It comes to its
start only if the trap keeps it there. -/
def StopsBy (program : Program) (stop : Machine → Prop) (start : Machine) (k : Nat) : Prop :=
  ∃ j m, (0 < j ∨ k = 0) ∧ j ≤ k ∧ start.after program j = some m ∧ stop m

/-- Up to a trap after so many instructions there is an end to stepping: the trap is an injected
one, or the machine comes to one to stop at. -/
def EndsBy (program : Program) (traps marks : Location → Bool) (stop : Machine → Prop)
    (start : Machine) (k : Nat) : Prop :=
  start.RunsInto program traps marks k ∨ start.StopsBy program stop k

variable {program : Program} {traps marks : Location → Bool} {start m next : Machine}
  {place : Location} {i j k : Nat}

/-! ## Traces up to a trap -/

/-- A machine at a trap of the program stays there. -/
theorem step_of_atTrap {p : Program} (h : m.AtTrap p.unpatched) :
    m.step p.unpatched = some (.trapped m) := by
  obtain ⟨place, i, hplace, hi, htrap⟩ := h
  obtain ⟨frames, stack⟩ := m
  cases frames with
  | nil => cases hplace
  | cons frame callers =>
    cases hplace
    rw [Program.instructionAt?_unpatched] at hi
    have hexecute : execute i frame stack = ⟨.ok .halt, frame, stack⟩ := by
      simp only [execute, htrap]
    simp only [step, stepIn, fetch_of_instructionAt? hi, hexecute]
    rfl

/-- Before the last machine of a trace each one moves on. -/
theorem exists_step_of_after {last : Machine} (h : start.after program k = some last)
    (hm : start.after program j = some m) (hlt : j < k) :
    ∃ next, m.step program = some (.moved next) ∧ start.after program (j + 1) = some next := by
  obtain ⟨n, rfl⟩ : ∃ n, k = j + (n + 1) := ⟨k - j - 1, by omega⟩
  rw [after_add _ hm, after] at h
  split at h
  · rename_i next hmoved
    exact ⟨next, hmoved, by rw [after_add 1 hm, after_succ_of_moved 0 hmoved, after]⟩
  · cases h

/-- A run that comes to a trap, one of the program or a patched one, ends. -/
theorem exists_run_of_after {p : Program} {last : Machine}
    (h : m.after p.unpatched k = some last)
    (htrap : last.AtTrap p.unpatched ∨ last.onPatch p = true) :
    ∃ fuel, (m.run p fuel).isSome := by
  have hstays : last.step p = some (.trapped last) := by
    rw [step_eq]
    split
    · rfl
    · exact step_of_atTrap (htrap.resolve_right ‹_›)
  induction k generalizing m with
  | zero =>
    cases h
    exact ⟨1, by rw [run, hstays]; rfl⟩
  | succ k ih =>
    rw [after] at h
    split at h
    · rename_i next hmoved
      obtain ⟨fuel, hfuel⟩ := ih h
      by_cases hpatch : m.onPatch p = true
      · exact ⟨1, by rw [run, step_eq, if_pos hpatch]; rfl⟩
      · exact ⟨fuel + 1, by rwa [run, step_eq, if_neg hpatch, hmoved]⟩
    · cases h

theorem FirstTrap.exists_after (h : start.FirstTrap program traps marks k) :
    ∃ last, start.after program k = some last := by
  rcases h.1 with ⟨last, hlast, -⟩ | ⟨last, -, hlast, -⟩ <;> exact ⟨last, hlast⟩

theorem FirstTrap.not_runsInto (h : start.FirstTrap program traps marks k) (hlt : j < k) :
    ¬start.RunsInto program traps marks j :=
  fun hruns => absurd (h.2 (.inr hruns)) (Nat.not_le.mpr hlt)

/-- If the first trap is not an injected one, it is one of the program. -/
theorem FirstTrap.atTrap (h : start.FirstTrap program traps marks k)
    (hruns : ¬start.RunsInto program traps marks k) (hm : start.after program k = some m) :
    m.AtTrap program := by
  obtain ⟨last, hlast, htrap⟩ := h.1.resolve_right hruns
  cases hlast.symm.trans hm
  exact htrap

/-- A machine at a trap of the program comes to no other trap before. -/
theorem firstTrap_zero (h : m.AtTrap program) : m.FirstTrap program traps marks 0 :=
  ⟨.inl ⟨m, rfl, h⟩, fun k _ => k.zero_le⟩

/-- At the start a machine is on an injected trap if one of those at the start stands there. -/
theorem runsInto_zero_iff : m.RunsInto program traps marks 0 ↔ m.location?.any traps = true := by
  rw [Option.any_eq_true]
  constructor
  · rintro ⟨last, place, hlast, hplace, htrap | ⟨-, i, mid, hi, -⟩⟩
    · cases hlast
      exact ⟨place, hplace, htrap⟩
    · exact absurd hi i.not_lt_zero
  · rintro ⟨place, hplace, htrap⟩
    exact ⟨m, place, rfl, hplace, .inl htrap⟩

/-- A trace stops by the first trap where it stops at the machine there. -/
theorem StopsBy.of_last {stop : Machine → Prop} (hm : start.after program k = some m)
    (hstop : stop m) : start.StopsBy program stop k :=
  ⟨k, m, k.eq_zero_or_pos.symm, le_rfl, hm, hstop⟩

/-! ## Patches on the way -/

/-- The patches after so many instructions are the injected traps. Nothing is said of the location
of the machine. -/
structure Tracks (program : Program) (traps marks : Location → Bool) (start : Machine) (k : Nat)
    (m : Machine) (patched : Location → Bool) : Prop where
  after : start.after program k = some m
  elsewhere : ∀ place, m.location? ≠ some place →
    (patched place = true ↔ start.Injected program traps marks k place)

/-- By the next instruction the location that the machine leaves is armed, if it is marked. -/
theorem injected_succ (hm : start.after program k = some m) :
    start.Injected program traps marks (k + 1) place ↔
      start.Injected program traps marks k place ∨
        m.location? = some place ∧ marks place = true := by
  constructor
  · rintro (htraps | ⟨hmarks, i, mid, hlt, hmid, hplace⟩)
    · exact .inl (.inl htraps)
    · rcases Nat.lt_succ_iff_lt_or_eq.mp hlt with hearlier | rfl
      · exact .inl (.inr ⟨hmarks, i, mid, hearlier, hmid, hplace⟩)
      · cases hm.symm.trans hmid
        exact .inr ⟨hplace, hmarks⟩
  · rintro ((htraps | ⟨hmarks, i, mid, hlt, hmid, hplace⟩) | ⟨hplace, hmarks⟩)
    · exact .inl htraps
    · exact .inr ⟨hmarks, i, mid, by omega, hmid, hplace⟩
    · exact .inr ⟨hmarks, k, m, by omega, hm, hplace⟩

section Next

variable {patched patched' : Location → Bool}

/-- What is injected after the next instruction, told by the patches before it. -/
theorem Tracks.injected_succ_iff (h : Tracks program traps marks start k m patched)
    (hfree : ¬start.RunsInto program traps marks k) :
    start.Injected program traps marks (k + 1) place ↔
      (m.location? ≠ some place ∧ patched place = true) ∨
        m.location? = some place ∧ marks place = true := by
  rw [injected_succ h.after]
  by_cases hplace : m.location? = some place
  · have hnone : ¬start.Injected program traps marks k place :=
      fun hinjected => hfree ⟨m, place, h.after, hplace, hinjected⟩
    simp [hplace, hnone]
  · simp [hplace, h.elsewhere place hplace]

/-- The next instruction takes out the trap where it leads to, and arms the location that it leaves
if that is marked. -/
def PatchedBy (marks : Location → Bool) (m next : Machine) (patched patched' : Location → Bool) :
    Prop :=
  ∀ place, patched' place = true ↔
    (m.location? ≠ some place ∧ patched place = true ∧ next.location? ≠ some place) ∨
      m.location? = some place ∧ marks place = true

theorem Tracks.succ (h : Tracks program traps marks start k m patched)
    (hfree : ¬start.RunsInto program traps marks k) (hmoved : m.step program = some (.moved next))
    (hpatched : PatchedBy marks m next patched patched') :
    Tracks program traps marks start (k + 1) next patched' := by
  refine ⟨by rw [after_add 1 h.after, after_succ_of_moved 0 hmoved, Machine.after], ?_⟩
  intro place hplace
  rw [h.injected_succ_iff hfree, hpatched]
  simp [hplace]

/-- An instruction leads to an injected trap if a trap was taken out where it leads to, or if that
is the location it has left. -/
theorem Tracks.runsInto_succ_iff (h : Tracks program traps marks start k m patched)
    (hfree : ¬start.RunsInto program traps marks k) (hmoved : m.step program = some (.moved next))
    (hpatched : PatchedBy marks m next patched patched') (hplace : next.location? = some place) :
    start.RunsInto program traps marks (k + 1) ↔
      (m.location? ≠ some place ∧ patched place = true) ∨ patched' place = true := by
  have hnext := (h.succ hfree hmoved hpatched).after
  have hinjected : start.RunsInto program traps marks (k + 1) ↔
      start.Injected program traps marks (k + 1) place := by
    constructor
    · rintro ⟨last, place', hlast, hplace', hinjected⟩
      cases hnext.symm.trans hlast
      cases hplace.symm.trans hplace'
      exact hinjected
    · exact fun hinjected => ⟨next, place, hnext, hplace, hinjected⟩
  rw [hinjected, h.injected_succ_iff hfree, hpatched]
  simp [hplace]

end Next

end Machine

end BytecodeDebugger
