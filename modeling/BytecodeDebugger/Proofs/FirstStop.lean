import BytecodeDebugger.Proofs.PlainTrace

/-!
# The first stop of a trace

`Machine.RestsAt` says where a trace comes to rest if it is to stop at certain machines: at the first
of them after at least one instruction, or at the end of the call if there is none before. The rest
of a trace can be read off instruction by instruction, which is how stepping commands find it, and a
run over a program with breakpoints finds it for the machines that stand on them.
-/

namespace BytecodeDebugger

/-- Where a trace comes to rest. -/
inductive Rest where
  | halted (m : Machine)
  | ended (ending : Ending)
  deriving DecidableEq

namespace Transition

/-- Where a machine comes to rest by one instruction. -/
def rest? : Transition → Option Rest
  | .moved m => some (.halted m)
  | .trapped m => some (.halted m)
  | .finished value _ => some (.ended (.returned value))
  | .faulted place fault _ => some (.ended (.faulted place fault))
  | .idle _ => none

theorem rest?_of_ending? {t : Transition} {ending : Ending} (h : t.ending? = some ending) :
    t.rest? = some (.ended ending) := by
  cases t <;> cases h <;> rfl

end Transition

namespace Machine

variable {program : Program} {stop : Machine → Prop} {m next : Machine} {rest : Rest} {k : Nat}

/-- Where the trace comes to by the next instruction. -/
def StepsTo (program : Program) (m : Machine) : Rest → Prop
  | .halted next => m.step program = some (.moved next)
  | .ended ending => (m.step program).bind Transition.ending? = some ending

/-- None of the next `k` machines of the trace is one to stop at. -/
def Passes (program : Program) (stop : Machine → Prop) (k : Nat) (m : Machine) : Prop :=
  ∀ j mid, j < k → m.after program (j + 1) = some mid → ¬stop mid

/-- The trace comes to rest at the first machine to stop at, or at the end of the call. -/
def RestsAt (program : Program) (stop : Machine → Prop) (m : Machine) : Rest → Prop
  | .halted last =>
    ∃ k, m.after program (k + 1) = some last ∧ stop last ∧ m.Passes program stop k
  | .ended ending => ∃ k, m.EndsAfter program k ending ∧ m.Passes program stop k

theorem passes_zero : m.Passes program stop 0 := by
  intro j mid hj
  omega

theorem passes_succ (hmoved : m.step program = some (.moved next)) :
    m.Passes program stop (k + 1) ↔ ¬stop next ∧ next.Passes program stop k := by
  constructor
  · intro h
    refine ⟨h 0 next (by omega) (after_succ_of_moved 0 hmoved), fun j mid hj hmid => ?_⟩
    exact h (j + 1) mid (by omega) ((after_succ_of_moved (j + 1) hmoved).trans hmid)
  · rintro ⟨hnext, hpasses⟩ j mid hj hmid
    rw [after_succ_of_moved j hmoved] at hmid
    cases j with
    | zero =>
      cases hmid
      exact hnext
    | succ j => exact hpasses j mid (by omega) hmid

theorem endsAfter_zero {ending : Ending} :
    m.EndsAfter program 0 ending ↔ (m.step program).bind Transition.ending? = some ending := by
  constructor
  · rintro ⟨last, hlast, hending⟩
    cases hlast
    exact hending
  · intro hending
    exact ⟨m, rfl, hending⟩

theorem endsAfter_succ {ending : Ending} (hmoved : m.step program = some (.moved next)) :
    m.EndsAfter program (k + 1) ending ↔ next.EndsAfter program k ending := by
  rw [EndsAfter, EndsAfter, after_succ_of_moved k hmoved]

theorem not_endsAfter_zero_of_moved {ending : Ending}
    (hmoved : m.step program = some (.moved next)) : ¬m.EndsAfter program 0 ending := by
  rw [endsAfter_zero, hmoved]
  nofun

/-- A machine to stop at is where the trace rests if it is the next one. -/
theorem restsAt_of_stop (hmoved : m.step program = some (.moved next)) (hstop : stop next) :
    m.RestsAt program stop rest ↔ rest = .halted next := by
  constructor
  · intro h
    cases rest with
    | halted last =>
      obtain ⟨k, hlast, -, hpasses⟩ := h
      cases k with
      | zero =>
        rw [after_succ_of_moved 0 hmoved] at hlast
        cases hlast
        rfl
      | succ k => exact absurd hstop ((passes_succ hmoved).mp hpasses).1
    | ended ending =>
      obtain ⟨k, hends, hpasses⟩ := h
      cases k with
      | zero => exact absurd hends (not_endsAfter_zero_of_moved hmoved)
      | succ k => exact absurd hstop ((passes_succ hmoved).mp hpasses).1
  · rintro rfl
    exact ⟨0, after_succ_of_moved 0 hmoved, hstop, passes_zero⟩

/-- A trace passes over a machine that it is not to stop at. -/
theorem restsAt_of_pass (hmoved : m.step program = some (.moved next)) (hpass : ¬stop next) :
    m.RestsAt program stop rest ↔ next.RestsAt program stop rest := by
  cases rest with
  | halted last =>
    constructor
    · rintro ⟨k, hlast, hstop, hpasses⟩
      cases k with
      | zero =>
        rw [after_succ_of_moved 0 hmoved] at hlast
        cases hlast
        exact absurd hstop hpass
      | succ k =>
        rw [after_succ_of_moved (k + 1) hmoved] at hlast
        exact ⟨k, hlast, hstop, ((passes_succ hmoved).mp hpasses).2⟩
    · rintro ⟨k, hlast, hstop, hpasses⟩
      refine ⟨k + 1, (after_succ_of_moved (k + 1) hmoved).trans hlast, hstop, ?_⟩
      exact (passes_succ hmoved).mpr ⟨hpass, hpasses⟩
  | ended ending =>
    constructor
    · rintro ⟨k, hends, hpasses⟩
      cases k with
      | zero => exact absurd hends (not_endsAfter_zero_of_moved hmoved)
      | succ k =>
        exact ⟨k, (endsAfter_succ hmoved).mp hends, ((passes_succ hmoved).mp hpasses).2⟩
    · rintro ⟨k, hends, hpasses⟩
      exact ⟨k + 1, (endsAfter_succ hmoved).mpr hends,
        (passes_succ hmoved).mpr ⟨hpass, hpasses⟩⟩

/-- A call that ends by the next instruction ends before anything to stop at. -/
theorem restsAt_of_ended {ending : Ending}
    (hends : (m.step program).bind Transition.ending? = some ending) :
    m.RestsAt program stop rest ↔ rest = .ended ending := by
  have hnone (k : Nat) : m.after program (k + 1) = none := by
    rw [after]
    split
    · rename_i next hmoved
      rw [hmoved] at hends
      cases hends
    · rfl
  constructor
  · intro h
    cases rest with
    | halted last =>
      obtain ⟨k, hlast, -⟩ := h
      rw [hnone] at hlast
      cases hlast
    | ended other =>
      obtain ⟨k, hother, -⟩ := h
      cases k with
      | zero =>
        rw [endsAfter_zero, hends] at hother
        cases hother
        rfl
      | succ k =>
        obtain ⟨last, hlast, -⟩ := hother
        rw [hnone] at hlast
        cases hlast
  · rintro rfl
    exact ⟨0, endsAfter_zero.mpr hends, passes_zero⟩

/-- The trace comes to rest where it is, if it is to stop there, or later. -/
def RestsFrom (program : Program) (stop : Machine → Prop) (m : Machine) (rest : Rest) : Prop :=
  (stop m ∧ rest = .halted m) ∨ (¬stop m ∧ m.RestsAt program stop rest)

theorem restsAt_of_moved (hmoved : m.step program = some (.moved next)) :
    m.RestsAt program stop rest ↔ next.RestsFrom program stop rest := by
  by_cases hstop : stop next
  · rw [restsAt_of_stop hmoved hstop]
    simp [RestsFrom, hstop]
  · rw [restsAt_of_pass hmoved hstop]
    simp [RestsFrom, hstop]

/-- What holds at the last instruction before the rest of a trace, and passes on to the instruction
before, holds at the start. -/
theorem RestsAt.induction {P : Machine → Prop}
    (hstop : ∀ {m next}, m.step program = some (.moved next) → stop next → P m)
    (hpass : ∀ {m next}, m.step program = some (.moved next) → ¬stop next → P next → P m)
    (hends : ∀ {m ending}, (m.step program).bind Transition.ending? = some ending → P m)
    (h : m.RestsAt program stop rest) : P m := by
  have hsteps (k : Nat) (m last : Machine) (hlast : m.after program k = some last)
      (hP : P last) (hpasses : m.Passes program stop k) : P m := by
    induction k generalizing m with
    | zero =>
      cases hlast
      exact hP
    | succ k ih =>
      rw [after] at hlast
      split at hlast
      · rename_i next hmoved
        obtain ⟨hnext, hrest⟩ := (passes_succ hmoved).mp hpasses
        exact hpass hmoved hnext (ih next hlast hrest)
      · cases hlast
  cases rest with
  | halted last =>
    obtain ⟨k, hlast, hstops, hpasses⟩ := h
    obtain ⟨before, hbefore, hmoved⟩ := exists_step_of_after_succ hlast
    exact hsteps k m before hbefore (hstop hmoved hstops) hpasses
  | ended ending =>
    obtain ⟨k, ⟨last, hlast, hending⟩, hpasses⟩ := h
    exact hsteps k m last hlast (hends hending) hpasses

theorem step_isSome_of_ended {ending : Ending}
    (hends : (m.step program).bind Transition.ending? = some ending) :
    (m.step program).isSome := by
  obtain ⟨t, ht, -⟩ := Option.bind_eq_some_iff.mp hends
  rw [ht]
  rfl

/-- Where a trace comes to rest, the next instruction does not stop the process. -/
theorem RestsAt.step_isSome (h : m.RestsAt program stop rest) : (m.step program).isSome := by
  apply h.induction (P := fun m => (m.step program).isSome)
  · intro m next hmoved _
    rw [hmoved]
    rfl
  · intro m next hmoved _ _
    rw [hmoved]
    rfl
  · intro m ending hends
    exact step_isSome_of_ended hends

theorem not_restsAt_of_step_eq_none (hstep : m.step program = none) :
    ¬m.RestsAt program stop rest := by
  intro hrests
  have hruns := hrests.step_isSome
  rw [hstep] at hruns
  cases hruns

/-- What holds where a trace is to stop and where its call ends, and passes on to the instruction
before, holds at the start. -/
theorem RestsFrom.induction {P : Machine → Prop} (hstop : ∀ {m}, stop m → P m)
    (hpass : ∀ {m next}, ¬stop m → m.step program = some (.moved next) → P next → P m)
    (hends : ∀ {m ending}, ¬stop m → (m.step program).bind Transition.ending? = some ending → P m)
    (h : m.RestsFrom program stop rest) : P m := by
  rcases h with ⟨hm, -⟩ | ⟨hm, hrests⟩
  · exact hstop hm
  · refine hrests.induction (P := fun m => ¬stop m → P m) ?_ ?_ ?_ hm
    · intro m next hmoved hnext hm
      exact hpass hm hmoved (hstop hnext)
    · intro m next hmoved hnext ih hm
      exact hpass hm hmoved (ih hnext)
    · intro m ending hending hm
      exact hends hm hending

/-- A trace comes to rest in one way only. -/
theorem RestsAt.unique {rest' : Rest} (h : m.RestsAt program stop rest)
    (h' : m.RestsAt program stop rest') : rest = rest' := by
  suffices hall : ∀ r r', m.RestsAt program stop r → m.RestsAt program stop r' → r = r' from
    hall rest rest' h h'
  apply h.induction (P := fun m => ∀ r r', m.RestsAt program stop r → m.RestsAt program stop r' →
    r = r')
  · intro m next hmoved hstop r r' hr hr'
    rw [restsAt_of_stop hmoved hstop] at hr hr'
    rw [hr, hr']
  · intro m next hmoved hpass ih r r' hr hr'
    rw [restsAt_of_pass hmoved hpass] at hr hr'
    exact ih r r' hr hr'
  · intro m ending hends r r' hr hr'
    rw [restsAt_of_ended hends] at hr hr'
    rw [hr, hr']

theorem RestsFrom.unique {rest' : Rest} (h : m.RestsFrom program stop rest)
    (h' : m.RestsFrom program stop rest') : rest = rest' := by
  rcases h with ⟨hstop, rfl⟩ | ⟨hpass, hrests⟩
  · rcases h' with ⟨-, rfl⟩ | ⟨hpass, -⟩
    · rfl
    · exact absurd hstop hpass
  · rcases h' with ⟨hstop, -⟩ | ⟨-, hrests'⟩
    · exact absurd hstop hpass
    · exact hrests.unique hrests'

/-! ## Steps and runs over breakpoints -/

section Runs

variable {p : Program} {fuel : Nat}

/-- A machine with a frame comes to rest by one instruction, unless it stops the process: it moves on,
it stays on a trap, or its call ends. -/
theorem exists_rest? {t : Transition} (hm : m.frames ≠ []) (h : m.step program = some t) :
    ∃ rest, t.rest? = some rest ∧ ∀ last, rest = .halted last → last.frames ≠ [] := by
  rcases step_cases hm h with ⟨next, rfl, hne⟩ | ⟨ending, hending⟩ | rfl
  · refine ⟨.halted next, rfl, ?_⟩
    rintro _ ⟨⟩
    exact hne
  · refine ⟨.ended ending, Transition.rest?_of_ending? hending, ?_⟩
    rintro _ ⟨⟩
  · refine ⟨.halted m, rfl, ?_⟩
    rintro _ ⟨⟩
    exact hm

/-- One instruction over a program with breakpoints leaves a machine on a breakpoint as it is, and
does elsewhere what it does without them. -/
theorem step_rest? {t : Transition} (hm : m.frames ≠ []) (h : m.step p = some t) :
    ∃ rest, t.rest? = some rest ∧ (∀ last, rest = .halted last → last.frames ≠ []) ∧
      if m.onPatch p then rest = .halted m
      else (m.step p.unpatched).bind Transition.rest? = some rest := by
  obtain ⟨rest, hrest, hframes⟩ := exists_rest? hm h
  refine ⟨rest, hrest, hframes, ?_⟩
  rw [step_eq] at h
  split at h
  · cases h
    cases hrest
    rw [if_pos ‹_›]
  · rw [if_neg ‹_›, h]
    exact hrest

/-- In a program written without traps, to come to rest is to move on or to end. -/
theorem stepsTo_of_rest? (hfree : p.TrapFree) (hm : m.frames ≠ [])
    (h : (m.step p.unpatched).bind Transition.rest? = some rest) : m.StepsTo p.unpatched rest := by
  obtain ⟨t, ht, hrest⟩ := Option.bind_eq_some_iff.mp h
  rcases step_unpatched_cases hfree hm ht with ⟨next, rfl⟩ | ⟨ending, hends⟩
  · cases hrest
    exact ht
  · cases hrest.symm.trans (Transition.rest?_of_ending? hends)
    exact Option.bind_eq_some_iff.mpr ⟨t, ht, hends⟩

/-- A run over a program with breakpoints comes to rest at the first of them on the way, or at the
end of the call. -/
theorem run_restsFrom {t : Transition} (hfree : p.TrapFree) (hm : m.frames ≠ [])
    (h : m.run p fuel = some t) :
    ∃ rest, t.rest? = some rest ∧ (∀ last, rest = .halted last → last.frames ≠ []) ∧
      m.RestsFrom p.unpatched (fun m => m.onPatch p = true) rest := by
  induction fuel generalizing m with
  | zero => cases h
  | succ fuel ih =>
    rw [run, step_eq] at h
    by_cases hpatch : m.onPatch p = true
    · rw [if_pos hpatch] at h
      cases h
      refine ⟨.halted m, rfl, ?_, .inl ⟨hpatch, rfl⟩⟩
      rintro _ ⟨⟩
      exact hm
    · rw [if_neg hpatch] at h
      split at h
      · rename_i next hmoved
        obtain ⟨rest, hrest, hframes, hfrom⟩ := ih (frames_ne_nil_of_step hmoved) h
        exact ⟨rest, hrest, hframes, .inr ⟨hpatch, (restsAt_of_moved hmoved).mpr hfrom⟩⟩
      · rename_i hother
        rcases step_unpatched_cases hfree hm h with ⟨next, rfl⟩ | ⟨ending, hending⟩
        · exact absurd h (hother next)
        · have hends : (m.step p.unpatched).bind Transition.ending? = some ending :=
            Option.bind_eq_some_iff.mpr ⟨t, h, hending⟩
          refine ⟨.ended ending, Transition.rest?_of_ending? hending, fun last hlast => ?_, ?_⟩
          · cases hlast
          · exact .inr ⟨hpatch, (restsAt_of_ended hends).mpr rfl⟩

/-- A trace that comes to rest is run to its rest, given time. -/
theorem exists_run_of_restsFrom
    (h : m.RestsFrom p.unpatched (fun m => m.onPatch p = true) rest) :
    ∃ fuel, (m.run p fuel).isSome := by
  apply h.induction (P := fun m => ∃ fuel, (m.run p fuel).isSome)
  · intro m hpatched
    refine ⟨1, ?_⟩
    rw [run, step_eq, if_pos hpatched]
    rfl
  · intro m next hfree hmoved ih
    obtain ⟨fuel, hfuel⟩ := ih
    refine ⟨fuel + 1, ?_⟩
    rwa [run, step_eq, if_neg hfree, hmoved]
  · intro m ending hfree hends
    obtain ⟨t, ht, hending⟩ := Option.bind_eq_some_iff.mp hends
    refine ⟨1, ?_⟩
    rw [run, step_eq, if_neg hfree, ht]
    cases t <;> cases hending <;> rfl

end Runs

end Machine

end BytecodeDebugger
