import BytecodeDebugger.Proofs.ArmedReturns
import BytecodeDebugger.Proofs.FirstTrap

/-!
# The steps of a debugger up to a trap

The loop of `stepInto` asks after each instruction whether a patched trap was taken out, and
otherwise decides by the set of breakpoints and the spans. So a trap that was injected ends it, but
a trap of the program ends it only where there is a breakpoint or a span: otherwise the loop
executes the trap again and again. Given on a call, `stepNext` runs freely, and every trap ends it.
-/

namespace BytecodeDebugger

theorem Machine.AtTrap.not_atCall {program : Program} {m : Machine} (h : m.AtTrap program) :
    ¬m.AtCall program := by
  obtain ⟨place, i, hplace, hi, htrap⟩ := h
  rintro ⟨place', i', hplace', hi', hcall⟩
  cases hplace.symm.trans hplace'
  cases hi.symm.trans hi'
  cases htrap.symm.trans hcall

/-- A run comes to an end at a trap, one of the program or a patched one. -/
theorem Debuggee.exists_resume_of_after {vm : Debuggee} {program : Program} {m last : Machine}
    {k : Nat} (h : vm.PausedIn program m) (hstepping : vm.stepping = false)
    (hlast : m.after program k = some last)
    (htrap : last.AtTrap program ∨ last.location?.any vm.isPatched = true) :
    ∃ fuel, (vm.resume fuel).isSome := by
  obtain ⟨p, hp, rfl⟩ := h.live
  rw [← onPatch_eq hp] at htrap
  obtain ⟨fuel, hfuel⟩ := Machine.exists_run_of_after hlast htrap
  refine ⟨fuel, ?_⟩
  rw [resume, if_pos h.isPaused, run_eq hp, hstepping, if_neg Bool.false_ne_true, h.machine,
    Option.isSome_map]
  exact hfuel

namespace Debugger

variable {d e : Debugger} {traps marks set : Location → Bool} {program : Program}
  {start m next : Machine} {place : Location} {k n : Nat}

/-! ## One instruction -/

/-- The breakpoints of the loaded program. -/
theorem isBreakpoint_eq (h : d.vm.PausedIn program m) (place : Location) :
    d.isBreakpoint place = (d.hasBreakpoint place && program.hasAddress place) := by
  rw [isBreakpoint, Debuggee.hasAddress, h.plain, Option.any_some]

/-- One instruction halts a debugger again, and another one comes of it. -/
structure StepsOn (program : Program) (m next : Machine) (d e : Debugger) : Prop where
  paused : e.vm.PausedIn program next
  breakpoints : e.hasBreakpoint = d.hasBreakpoint
  patched : Machine.PatchedBy d.isBreakpoint m next d.vm.isPatched e.vm.isPatched
  programId : e.vm.programId = d.vm.programId
  answer : ∀ place, next.location? = some place → ∀ fuel, d.stepInstruction fuel =
    some (.ok (.paused ⟨d.vm.programId, place.function, place.address⟩
      (decide (m.location? ≠ some place) && d.vm.isPatched place)), e)

theorem StepsOn.isBreakpoint (h : StepsOn program m next d e) (hd : d.vm.PausedIn program m) :
    e.isBreakpoint = d.isBreakpoint := by
  funext place
  rw [isBreakpoint_eq h.paused, isBreakpoint_eq hd, h.breakpoints]

/-- An instruction that does not end the call halts the debugger again. -/
theorem exists_stepsOn (h : d.vm.PausedIn program m)
    (hrest : (m.step program).bind Transition.rest? = some (.halted next)) :
    ∃ e, StepsOn program m next d e := by
  obtain ⟨first, hfirst⟩ := Debuggee.location?_eq_some h.frames_ne_nil
  let origin : FrameInfo := ⟨d.vm.programId, first.function, first.address⟩
  rcases resume_released h hfirst with
    ⟨hnone, -⟩ | ⟨rest, answer, t, hrest', hframes, hat, hanswered, hresume⟩
  · rw [hnone] at hrest
    cases hrest
  cases hrest.symm.trans hrest'
  have hresumed : (d.released origin).Resumed t := resumed_resume (hresume 0)
  obtain ⟨hpaused, hid, hset⟩ := pausedIn_rearm h hresumed hat (hframes next rfl)
  have hreleased (place : Location) : (d.released origin).vm.isPatched place =
      (decide (m.location? ≠ some place) && d.vm.isPatched place) := by
    rw [isPatched_released, Bool.and_comm, hfirst]
    simp
  refine ⟨t.rearm origin, hpaused, hset, fun place => ?_, hid, fun place hplace fuel => ?_⟩
  · have hownId : t.isCurrent origin = true := by
      have htid : t.vm.programId = d.vm.programId :=
        hresumed.programId.trans (d.sameCall_released origin).programId
      exact beq_iff_eq.mpr htid.symm
    have hbreakpoint : t.isBreakpoint place = d.isBreakpoint place := by
      rw [isBreakpoint_eq h, ← hset, ← isBreakpoint_eq hpaused]
      have hsame := t.sameCall_rearm origin
      exact (isBreakpoint_of_sameCall hsame (breakpoints_rearm t origin) place).symm
    have hlocation : origin.location = first := rfl
    rw [isPatched_rearm, hownId, hlocation, hbreakpoint, hresumed.isPatched, hreleased,
      hat.haltedAt?, hfirst]
    simp [and_assoc]
  · cases hanswered with
    | halted hlast =>
      cases hlast.symm.trans hplace
      rw [stepInstruction_eq (pausedFrame?_eq h hfirst), hresume, Option.map_some, Rest.location?,
        hplace, Option.any_some, hreleased]

/-! ## The loop of stepping -/

/-- A step is the last one if a trap was taken out where it leads to, or by the rule of stepping. -/
theorem StepsOn.stepToStopPoint (h : StepsOn program m next d e)
    (hplace : next.location? = some place) :
    let stops := (m.location? ≠ some place ∧ d.vm.isPatched place = true) ∨
      next.AtStopPoint d.hasBreakpoint program
    (stops → ∀ fuel, (d.stepToStopPoint (fuel + 1)).isSome) ∧
      (¬stops → ∀ fuel, d.stepToStopPoint (fuel + 1) = e.stepToStopPoint fuel) := by
  have hstops : e.isStopPoint (.paused ⟨d.vm.programId, place.function, place.address⟩
      (decide (m.location? ≠ some place) && d.vm.isPatched place)) = true ↔
        (m.location? ≠ some place ∧ d.vm.isPatched place = true) ∨
          next.AtStopPoint d.hasBreakpoint program := by
    rw [← h.programId, isStopPoint_iff h.paused hplace, h.breakpoints, Bool.and_eq_true_iff,
      decide_eq_true_iff]
  constructor
  · intro hstop fuel
    simp only [Debugger.stepToStopPoint, h.answer place hplace, hstops.mpr hstop, if_true]
    rfl
  · intro hgo fuel
    simp only [Debugger.stepToStopPoint, h.answer place hplace, hstops, hgo, if_false]

/-- A debugger that has come to a machine by so many instructions. -/
structure Walks (traps marks set : Location → Bool) (program : Program) (start : Machine) (k : Nat)
    (m : Machine) (d : Debugger) : Prop where
  paused : d.vm.PausedIn program m
  breakpoints : d.hasBreakpoint = set
  marked : d.isBreakpoint = marks
  tracks : start.Tracks program traps marks k m d.vm.isPatched

/-- By an instruction that moves on, stepping is over where it leads to an injected trap or by its
rule, and goes on otherwise. -/
theorem Walks.step (h : Walks traps marks set program start k m d)
    (hfree : ¬start.RunsInto program traps marks k) (hmoved : m.step program = some (.moved next)) :
    ∃ e, Walks traps marks set program start (k + 1) next e ∧
      let stops := start.RunsInto program traps marks (k + 1) ∨ next.AtStopPoint set program
      (stops → ∀ fuel, (d.stepToStopPoint (fuel + 1)).isSome) ∧
        (¬stops → ∀ fuel, d.stepToStopPoint (fuel + 1) = e.stepToStopPoint fuel) := by
  obtain ⟨e, he⟩ := exists_stepsOn h.paused (by rw [hmoved]; rfl)
  obtain ⟨place, hplace⟩ := Debuggee.location?_eq_some (Machine.frames_ne_nil_of_step hmoved)
  have hpatched := he.patched
  rw [h.marked] at hpatched
  refine ⟨e, ⟨he.paused, he.breakpoints.trans h.breakpoints,
    (he.isBreakpoint h.paused).trans h.marked, h.tracks.succ hfree hmoved hpatched⟩, ?_⟩
  -- The location that a jump to itself has left is armed again. It has a breakpoint, which ends
  -- stepping by the rule.
  have harmed : e.vm.isPatched place = true → next.AtStopPoint set program := by
    intro hset
    rcases (hpatched place).mp hset with ⟨-, -, hne⟩ | ⟨-, hmark⟩
    · exact absurd hplace hne
    · rw [← h.marked, isBreakpoint, h.breakpoints] at hmark
      rw [Machine.AtStopPoint, hplace]
      exact .inl (Bool.and_eq_true_iff.mp hmark).1
  have hstops := he.stepToStopPoint hplace
  rw [h.breakpoints] at hstops
  rwa [h.tracks.runsInto_succ_iff hfree hmoved hpatched hplace, or_assoc,
    or_iff_right_of_imp harmed]

/-- Stepping ends at an injected trap, and at a machine to stop at, that it comes to by so many
instructions. By induction on their number. -/
theorem Walks.stepToStopPoint_isSome (h : Walks traps marks set program start k m d)
    {last : Machine} (hlast : start.after program (k + n + 1) = some last)
    (hfree : ∀ j < k + n + 1, ¬start.RunsInto program traps marks j)
    (hstop : start.RunsInto program traps marks (k + n + 1) ∨ last.AtStopPoint set program)
    (fuel : Nat) : (d.stepToStopPoint (n + 1 + fuel)).isSome := by
  induction n generalizing k m d with
  | zero =>
    obtain ⟨next, hmoved, hnext⟩ := Machine.exists_step_of_after hlast h.tracks.after (by omega)
    cases hlast.symm.trans hnext
    obtain ⟨e, -, hends, -⟩ := h.step (hfree k (by omega)) hmoved
    rw [Nat.add_comm]
    exact hends hstop fuel
  | succ n ih =>
    obtain ⟨next, hmoved, -⟩ := Machine.exists_step_of_after hlast h.tracks.after (by omega)
    obtain ⟨e, he, hends, hgoes⟩ := h.step (hfree k (by omega)) hmoved
    rw [Nat.add_right_comm]
    by_cases hnow : start.RunsInto program traps marks (k + 1) ∨ next.AtStopPoint set program
    · exact hends hnow _
    · rw [hgoes hnow]
      rw [← Nat.add_assoc, Nat.add_right_comm k n 1] at hlast hfree hstop
      exact ih he hlast hfree hstop

/-- At a trap of the program stepping is over by its rule or never. -/
theorem stepToStopPoint_eq_none (h : d.vm.PausedIn program m) (htrap : m.AtTrap program)
    (hpass : ¬m.AtStopPoint d.hasBreakpoint program) (fuel : Nat) :
    d.stepToStopPoint fuel = none := by
  induction fuel generalizing d with
  | zero => rfl
  | succ fuel ih =>
    obtain ⟨place, hplace⟩ := Debuggee.location?_eq_some h.frames_ne_nil
    obtain ⟨p, -, rfl⟩ := h.live
    obtain ⟨e, he⟩ := exists_stepsOn h (by rw [Machine.step_of_atTrap htrap]; rfl)
    rw [(he.stepToStopPoint hplace).2 fun hstops => hstops.elim (fun hleft => hleft.1 hplace) hpass]
    exact ih he.paused (he.breakpoints ▸ hpass)

/-- Stepping comes to the first trap, and if that is one of the program it is not over there unless
by its rule. By induction on the bound. -/
theorem Walks.stepToStopPoint_eq_none (h : Walks traps marks set program start n m d)
    (hfirst : start.FirstTrap program traps marks k) (hle : n ≤ k)
    (hgoes : ¬start.EndsBy program traps marks (·.AtStopPoint set program) k) (fuel : Nat) :
    d.stepToStopPoint fuel = none := by
  obtain ⟨hruns, hpass⟩ := not_or.mp hgoes
  obtain ⟨last, hlast⟩ := hfirst.exists_after
  induction fuel generalizing n m d with
  | zero => rfl
  | succ fuel ih =>
    rcases Nat.lt_or_eq_of_le hle with hlt | rfl
    · obtain ⟨next, hmoved, hnext⟩ := Machine.exists_step_of_after hlast h.tracks.after hlt
      obtain ⟨e, he, -, hgoes⟩ := h.step (hfirst.not_runsInto hlt) hmoved
      rw [hgoes]
      · exact ih he hlt
      · rintro (hinto | hstop)
        · rcases Nat.lt_or_eq_of_le hlt with hearly | rfl
          · exact hfirst.not_runsInto hearly hinto
          · exact hruns hinto
        · exact hpass ⟨n + 1, next, .inl n.succ_pos, hlt, hnext, hstop⟩
    · cases h.tracks.after.symm.trans hlast
      apply Debugger.stepToStopPoint_eq_none h.paused (hfirst.atTrap hruns hlast)
      rw [h.breakpoints]
      exact fun hstop => hpass (.of_last hlast hstop)

/-- Stepping that starts where a trap was taken out ends by the first trap. -/
theorem Walks.stepToStopPoint_isSome_of_endsBy (h : Walks traps marks set program start 0 start d)
    (hfirst : start.FirstTrap program traps marks k)
    (hfree : ¬start.RunsInto program traps marks 0)
    (hends : start.EndsBy program traps marks (·.AtStopPoint set program) k) :
    (d.stepToStopPoint (k + 1)).isSome := by
  have hby {n : Nat} {last : Machine} (hle : n + 1 ≤ k)
      (hlast : start.after program (n + 1) = some last)
      (hstop : start.RunsInto program traps marks (n + 1) ∨ last.AtStopPoint set program) :
      (d.stepToStopPoint (k + 1)).isSome := by
    obtain ⟨more, rfl⟩ := Nat.exists_eq_add_of_le hle
    rw [← Nat.zero_add n] at hlast hstop
    rw [Nat.add_assoc]
    refine h.stepToStopPoint_isSome hlast (fun j hj => ?_) hstop (more + 1)
    exact hfirst.not_runsInto (by omega)
  rcases hends with hruns | ⟨j, mid, hj, hle, hmid, hstop⟩
  · obtain ⟨last, hlast⟩ := hfirst.exists_after
    cases k with
    | zero => exact absurd hruns hfree
    | succ k => exact hby le_rfl hlast (.inl hruns)
  · cases j with
    | succ j => exact hby hle hmid (.inr hstop)
    | zero =>
      obtain rfl : k = 0 := by omega
      cases h.tracks.after.symm.trans hmid
      obtain ⟨place, hplace⟩ := Debuggee.location?_eq_some h.paused.frames_ne_nil
      have htrap := hfirst.atTrap hfree hmid
      obtain ⟨p, -, rfl⟩ := h.paused.live
      obtain ⟨e, he⟩ := exists_stepsOn h.paused (by rw [Machine.step_of_atTrap htrap]; rfl)
      have hover := (he.stepToStopPoint hplace).1
      rw [h.breakpoints] at hover
      exact hover (.inr hstop) 0

/-! ## Commands -/

section Commands

variable {origin : FrameInfo} {target : Location}

theorem isSome_reported (answer : Answer StepOutcome) :
    (reported answer).isSome = answer.isSome :=
  Option.isSome_map

/-- The frame at which a call is halted stands at the location of its machine. -/
theorem exists_location?_of_pausedFrame? (h : d.vm.PausedIn program m)
    (horigin : d.pausedFrame? = some origin) :
    ∃ first, m.location? = some first ∧
      origin = ⟨d.vm.programId, first.function, first.address⟩ := by
  obtain ⟨first, hfirst⟩ := Debuggee.location?_eq_some h.frames_ne_nil
  exact ⟨first, hfirst, Option.some.inj (horigin.symm.trans (pausedFrame?_eq h hfirst))⟩

/-- A debugger starts to step without the trap that it is halted on. -/
theorem walks_zero (h : d.vm.PausedIn program m) (horigin : d.pausedFrame? = some origin) :
    Walks (d.released origin).vm.isPatched d.isBreakpoint d.hasBreakpoint program m 0 m d := by
  obtain ⟨first, hfirst, rfl⟩ := exists_location?_of_pausedFrame? h horigin
  refine ⟨h, rfl, rfl, rfl, fun place hplace => ?_⟩
  rw [hfirst, ne_eq, Option.some.injEq] at hplace
  simp [Machine.Injected, isPatched_released, hplace]

theorem not_runsInto_zero (h : d.vm.PausedIn program m) (horigin : d.pausedFrame? = some origin) :
    ¬m.RunsInto program (d.released origin).vm.isPatched marks 0 := by
  obtain ⟨first, hfirst, rfl⟩ := exists_location?_of_pausedFrame? h horigin
  rw [Machine.runsInto_zero_iff, hfirst, Option.any_some, isPatched_released]
  simp

theorem isBreakpoint_released (d : Debugger) (origin : FrameInfo) (place : Location) :
    (d.released origin).isBreakpoint place = d.isBreakpoint place :=
  isBreakpoint_of_sameCall (d.sameCall_released origin) (breakpoints_restoreFrame d origin) place

/-- A machine at which a run over the call at `m` halts: on a trap of the program, on one that was
patched before or belongs to a breakpoint, or where the calling routine goes on. -/
def HaltsOver (d : Debugger) (program : Program) (m last : Machine) : Prop :=
  last.AtTrap program ∨ ∃ place, last.location? = some place ∧
    (d.vm.isPatched place = true ∨ d.isBreakpoint place = true ∨
      m.GoesOnAt program place ∧ program.hasAddress place = true)

/-- A run over a call ends at the first machine at which it halts, at the latest. -/
theorem exists_runOverCall {stepped : StepOutcome} {last : Machine} (h : d.vm.PausedIn program next)
    (htarget : d.overTarget? origin = some target) (hgoes : m.GoesOnAt program target)
    (hlast : next.after program k = some last) (hhalts : d.HaltsOver program m last) :
    ∃ fuel, (d.runOverCall fuel origin stepped).isSome := by
  have htrap : last.AtTrap program ∨ last.location?.any (d.armedAt target).vm.isPatched = true := by
    refine hhalts.imp_right ?_
    rintro ⟨place, hplace, hpatched⟩
    have haddress : d.vm.hasAddress target = program.hasAddress target := by
      rw [Debuggee.hasAddress, h.plain, Option.any_some]
    rw [hplace, Option.any_some, isPatched_armedAt, haddress, Bool.or_eq_true_iff,
      Bool.or_eq_true_iff, Bool.and_eq_true_iff, decide_eq_true_iff]
    rcases hpatched with hpatched | hmark | ⟨hgoes', hrange⟩
    · exact .inl (.inl hpatched)
    · exact .inl (.inr hmark)
    · cases hgoes.unique hgoes'
      exact .inr ⟨rfl, hrange⟩
  obtain ⟨fuel, hfuel⟩ :=
    Debuggee.exists_resume_of_after (h.of_sameCall (d.sameCall_armedAt target)) rfl hlast htrap
  refine ⟨fuel, ?_⟩
  rw [runOverCall_eq fuel stepped htarget, Option.isSome_map]
  exact (Option.isSome_map).trans hfuel

/-- Given on a call, `stepNext` ends if the trace comes to a machine at which its run halts. The
trap that the debugger is halted on is taken out before. -/
theorem exists_stepNext_of_atCall (h : d.vm.PausedIn program m)
    (horigin : d.pausedFrame? = some origin) (hcall : m.AtCall program) {last : Machine}
    (hlast : m.after program (k + 1) = some last)
    (hhalts : (d.released origin).HaltsOver program m last) :
    ∃ fuel, (d.stepNext fuel).isSome := by
  obtain ⟨first, hfirst, rfl⟩ := exists_location?_of_pausedFrame? h horigin
  obtain ⟨next, hmoved, -⟩ := Machine.exists_step_of_after hlast rfl k.succ_pos
  obtain ⟨e, he⟩ := exists_stepsOn h (by rw [hmoved]; rfl)
  obtain ⟨place, hplace⟩ := Debuggee.location?_eq_some (Machine.frames_ne_nil_of_step hmoved)
  have hcommand := stepNext_of_standsAtCall horigin ((standsAtCall_iff h hfirst).mpr hcall)
  cases hflag : decide (m.location? ≠ some place) && d.vm.isPatched place with
  | true =>
    refine ⟨0, ?_⟩
    rw [hcommand, stepThen]
    simp only [he.answer place hplace, hflag]
    rfl
  | false =>
    have hrest : next.after program k = some last := by
      rwa [Machine.after_succ_of_moved k hmoved] at hlast
    have hhalts : e.HaltsOver program m last := by
      refine hhalts.imp_right ?_
      rintro ⟨other, hother, hpatched⟩
      refine ⟨other, hother, ?_⟩
      rcases hpatched with hpatched | hmark | hgoes
      · -- A trap where the step led to would have been taken out, and the answer said so.
        rw [isPatched_released, Bool.and_eq_true_iff, decide_eq_true_iff] at hpatched
        have hleft : m.location? ≠ some other := by
          rw [hfirst]
          exact fun heq => hpatched.2 (Option.some.inj heq)
        refine .inl ((he.patched other).mpr (.inl ⟨hleft, hpatched.1, fun hback => ?_⟩))
        cases hplace.symm.trans hback
        simp [hleft, hpatched.1] at hflag
      · refine .inr (.inl ?_)
        rwa [isBreakpoint_released, ← he.isBreakpoint h] at hmark
      · exact .inr (.inr hgoes)
    obtain ⟨target, htarget, hgoes⟩ := exists_overTarget?_of_atCall he.paused hcall hfirst
    rw [he.programId] at htarget
    obtain ⟨fuel, hfuel⟩ := exists_runOverCall he.paused htarget hgoes hrest hhalts
    refine ⟨fuel, ?_⟩
    rw [hcommand, stepThen]
    simp only [he.answer place hplace, hflag, isSome_reported]
    exact hfuel

/-- The first trap on the way of a call ends `stepNext`. -/
theorem exists_stepNext_of_firstTrap (h : d.vm.PausedIn program m)
    (horigin : d.pausedFrame? = some origin) (hcall : m.AtCall program)
    (hfirst : m.FirstTrap program (d.released origin).vm.isPatched d.isBreakpoint k) :
    ∃ fuel, (d.stepNext fuel).isSome := by
  obtain ⟨last, hlast⟩ := hfirst.exists_after
  cases k with
  | zero =>
    exact absurd hcall (hfirst.atTrap (not_runsInto_zero h horigin) rfl).not_atCall
  | succ k =>
    apply exists_stepNext_of_atCall h horigin hcall hlast
    rcases hfirst.1 with ⟨last', hlast', htrap⟩ | ⟨last', place, hlast', hplace, hinjected⟩
    · cases hlast.symm.trans hlast'
      exact .inl htrap
    · cases hlast.symm.trans hlast'
      refine .inr ⟨place, hplace, hinjected.imp_right fun hleft => .inl ?_⟩
      rw [isBreakpoint_released]
      exact hleft.1

/-- Where the trace of a halted call comes to a trap, `stepInto` ends by the first one if that is an
injected trap, or if its rule ends it before or there, and never otherwise. -/
theorem stepInto_isSome_iff (h : d.vm.PausedIn program m) (horigin : d.pausedFrame? = some origin)
    (hfirst : m.FirstTrap program (d.released origin).vm.isPatched d.isBreakpoint k) :
    let ends := m.EndsBy program (d.released origin).vm.isPatched d.isBreakpoint
      (·.AtStopPoint d.hasBreakpoint program) k
    ((d.stepInto (k + 1)).isSome ↔ ends) ∧ ((∃ fuel, (d.stepInto fuel).isSome) ↔ ends) := by
  intro ends
  have hwalks := walks_zero h horigin
  have hreached (hends : ends) : (d.stepInto (k + 1)).isSome := by
    rw [stepInto, isSome_reported]
    exact hwalks.stepToStopPoint_isSome_of_endsBy hfirst (not_runsInto_zero h horigin) hends
  have hnever (fuel : Nat) (hanswer : (d.stepInto fuel).isSome) : ends := by
    by_contra hgoes
    rw [stepInto, isSome_reported, hwalks.stepToStopPoint_eq_none hfirst k.zero_le hgoes] at hanswer
    cases hanswer
  refine ⟨⟨hnever (k + 1), hreached⟩, ?_, fun hends => ⟨k + 1, hreached hends⟩⟩
  rintro ⟨fuel, hfuel⟩
  exact hnever fuel hfuel

/-- `stepNext` ends where `stepInto` does, and whenever it is given on a call. -/
theorem exists_stepNext_iff (h : d.vm.PausedIn program m) (horigin : d.pausedFrame? = some origin)
    (hfirst : m.FirstTrap program (d.released origin).vm.isPatched d.isBreakpoint k) :
    (∃ fuel, (d.stepNext fuel).isSome) ↔ m.AtCall program ∨
      m.EndsBy program (d.released origin).vm.isPatched d.isBreakpoint
        (·.AtStopPoint d.hasBreakpoint program) k := by
  by_cases hcall : m.AtCall program
  · exact iff_of_true (exists_stepNext_of_firstTrap h horigin hcall hfirst) (.inl hcall)
  · obtain ⟨hreached, hends⟩ := stepInto_isSome_iff h horigin hfirst
    rw [or_iff_right hcall]
    constructor
    · rintro ⟨fuel, hfuel⟩
      rw [stepNext_eq h hcall] at hfuel
      exact hends.mp ⟨fuel + 1, hfuel⟩
    · intro hby
      exact ⟨k, by rw [stepNext_eq h hcall]; exact hreached.mpr hby⟩

end Commands

end Debugger

end BytecodeDebugger
