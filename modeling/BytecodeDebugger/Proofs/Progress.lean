import BytecodeDebugger.Proofs.CommandStops
import BytecodeDebugger.Proofs.Following

/-!
# Which commands make progress

A stepping command of a stepper that is answered has executed at least one instruction of the plain
trace, unless a trap stands where the call is halted. There a command executes the trap only, and is
answered as if it were over. A trap can stand there, since a breakpoint can be set where the call is
halted, and a step can lead back to the location it armed.

## Implementation notes

Nothing here needs the breakpoints to be armed, so the statements hold after failed runs as well, and
for programs that were loaded with patches.
-/

namespace BytecodeDebugger

namespace Debuggee

/-- The call has moved on from a machine. It is halted after at least one instruction of the plain
trace, or has returned as the trace does. -/
def Progressed (program : Program) (m : Machine) (vm : Debuggee) : Prop :=
  vm.plain? = some program ∧
    ((∃ k, vm.state = .paused ∧ m.after program (k + 1) = some vm.machine) ∨
      ∃ k value, vm.state = .finished ∧ m.EndsAfter program k (.returned value) ∧
        vm.returnValue = value)

/-- The plain call that goes on from where a call is halted. -/
def HaltedIn.plainCall {program : Program} {m : Machine} {vm : Debuggee}
    (h : vm.HaltedIn program m) : PlainCall where
  program := program
  start := m
  trapFree := h.trapFree
  frames_ne_nil := h.frames_ne_nil

variable {vm : Debuggee} {program : Program} {m : Machine} {rest : Rest}

/-- A call that goes on in its trace after it has moved on. -/
theorem Progressed.of_followsOn {c : PlainCall} {k : Nat} (h : vm.FollowsOn c (k + 1)) :
    vm.Progressed c.program c.start := by
  obtain ⟨j, hle, ⟨hplain, hstate, hafter⟩ | ⟨value, hplain, hstate, hends, hvalue⟩⟩ := h
  · obtain ⟨i, rfl⟩ : ∃ i, j = i + 1 := ⟨j - 1, by omega⟩
    exact ⟨hplain, .inl ⟨i, hstate, hafter⟩⟩
  · exact ⟨hplain, .inr ⟨j, value, hstate, hends, hvalue value rfl⟩⟩

/-- A call that came to rest after at least one instruction, and did not fail. -/
theorem Progressed.of_restsAt {stop : Machine → Prop} (hplain : vm.plain? = some program)
    (hat : vm.AtRest rest) (hrests : m.RestsAt program stop rest)
    (hfine : ∀ place fault, rest ≠ .ended (.faulted place fault)) : vm.Progressed program m := by
  refine ⟨hplain, ?_⟩
  match rest with
  | .halted last =>
    obtain ⟨k, hlast, -⟩ := hrests
    exact .inl ⟨k, hat.1, hat.2 ▸ hlast⟩
  | .ended (.returned value) =>
    obtain ⟨k, hends, -⟩ := hrests
    exact .inr ⟨k, value, hat.1, hends, hat.2 value rfl⟩
  | .ended (.faulted place fault) => exact absurd rfl (hfine place fault)

end Debuggee

namespace Stepper

variable {s s' : Stepper} {program : Program} {m : Machine} {fuel : Nat} {command : Command}

theorem plan_runFreely {request : Request} {answer : Except DebugError Unit}
    (h : s.runFreely fuel request = some (answer, s')) : s'.plan = s.plan := by
  cases request with
  | step =>
    cases h
    rfl
  | proceed => exact (resumed_runFreely h).plan

/-! ## Where no trap stands -/

section Free

variable (hs : s.vm.HaltedIn program m) (hfree : m.location?.any s.vm.isPatched = false)

include hs hfree

/-- A free run from a location without a trap. -/
theorem progressed_runFreely (h : s.runFreely fuel .proceed = some (.ok (), s')) :
    s'.vm.Progressed program m := by
  obtain ⟨rest, hanswer, hat, ⟨hstop, -⟩ | ⟨-, hrests⟩⟩ := runFreely_rests hs h
  · rw [hfree] at hstop
    cases hstop
  · refine .of_restsAt ?_ hat hrests fun place fault hrest => ?_
    · exact (resumed_runFreely h).debugger.plain.trans hs.plain
    · rw [hrest] at hanswer
      cases hanswer

/-- A request that is served without a failure. -/
theorem progressed_serve {request : Request} (h : s.serve fuel request = some (.ok (), s')) :
    s'.vm.Progressed program m ∧ s'.plan = s.plan := by
  by_cases hfirst : s.onBreakpoint = true ∨ request = .step
  · rcases serve_eq hs hfirst with ⟨-, -, hnone⟩ | ⟨rest, t, hat, hstep, hserve⟩
    · rw [hnone] at h
      cases h
    rw [hfree, if_neg Bool.false_ne_true] at hstep
    match rest with
    | .halted next =>
      obtain ⟨hstepped, hserve⟩ := hserve
      have hmoved : t.vm.Follows hs.plainCall 1 none := by
        refine ⟨hstepped.plain.trans hs.plain, hat.1, ?_⟩
        rw [hat.2]
        exact Machine.after_succ_of_moved 0 hstep
      have ht : t.vm.FollowsOn hs.plainCall 1 := ⟨1, Nat.le_refl 1, .inl hmoved⟩
      rw [hserve] at h
      split at h
      · cases h
        exact ⟨.of_followsOn ht, hstepped.plan⟩
      · refine ⟨.of_followsOn (c := hs.plainCall) (follows_runFreely ht h), ?_⟩
        exact (plan_runFreely h).trans hstepped.plan
    | .ended (.returned value) =>
      obtain ⟨hstepped, hserve⟩ := hserve
      rw [hserve] at h
      cases h
      refine ⟨⟨hstepped.plain.trans hs.plain, .inr ⟨0, value, hat.1, ?_, hat.2 value rfl⟩⟩, ?_⟩
      · exact Machine.endsAfter_zero.mpr hstep
      · exact hstepped.plan
    | .ended (.faulted place fault) =>
      rw [hserve] at h
      cases h
  · obtain ⟨hnote, hrequest⟩ := not_or.mp hfirst
    cases request with
    | step => exact absurd rfl hrequest
    | proceed =>
      rw [serve_of_not_onBreakpoint (by simpa using hnote)] at h
      exact ⟨progressed_runFreely hs hfree h, plan_runFreely h⟩

end Free

/-- What a plan does after its first request does not take progress back. -/
theorem progressed_drive {c : PlainCall} {plan : Plan} {starting : Bool}
    (hs : s.vm.Progressed c.program c.start) (hplan : s.plan = some plan)
    (hissued : plan.phase ≠ .start) (h : s.drive starting fuel = some (.ok (), s')) :
    s'.vm.Progressed c.program c.start := by
  obtain ⟨hplain, ⟨k, hstate, hafter⟩ | ⟨k, value, hstate, hends, hvalue⟩⟩ := hs
  · have hfollows : s.vm.Follows c (k + 1) none := ⟨hplain, hstate, hafter⟩
    have hon : s.vm.FollowsOn c (k + 1) := ⟨k + 1, Nat.le_refl _, .inl hfollows⟩
    exact .of_followsOn (follows_drive hon h)
  · -- The call has returned, so the plan is over.
    have hat : s.vm.AtRest (.ended (.returned value)) := by
      refine ⟨hstate, ?_⟩
      rintro _ ⟨⟩
      exact hvalue
    cases fuel with
    | zero => cases h
    | succ fuel =>
      rw [drive_done hplan (next_of_returned hat hissued)] at h
      cases h
      rw [vm_complete]
      exact ⟨hplain, .inr ⟨k, value, hstate, hends, hvalue⟩⟩

/-- Every command starts by a request. -/
theorem exists_next_begin (hs : s.vm.HaltedIn program m) (command : Command) :
    ∃ request plan, Plan.next { command } s.observe = (.request request, plan) ∧
      plan.phase ≠ .start := by
  obtain ⟨first, hfirst⟩ := Debuggee.location?_eq_some hs.frames_ne_nil
  have hframe : s.observe.frame = some _ := congrArg Observation.frame (observe_eq hs.pausedIn hfirst)
  obtain ⟨request, plan, hnext⟩ := Plan.exists_next hframe command
  exact ⟨request, plan, hnext, Plan.phase_ne_start hnext⟩

/-- A command that is answered without an error, given where no trap stands, has moved the call
on. -/
theorem progressed_start {flag : Bool} (hs : s.vm.HaltedIn program m)
    (hfree : m.location?.any s.vm.isPatched = false)
    (h : s.start fuel command = some (.ok flag, s')) : s'.vm.Progressed program m := by
  rw [start_eq hs.isPaused] at h
  obtain ⟨⟨driven, t⟩, hdrive, heq⟩ := Option.map_eq_some_iff.mp h
  cases driven with
  | error error => cases heq
  | ok value =>
    cases heq
    let starting : Stepper := { s with plan := some { command }, state := .starting }
    have hstarting : starting.vm.HaltedIn program m := hs
    obtain ⟨request, plan, hnext, hissued⟩ := exists_next_begin hstarting command
    cases fuel with
    | zero => cases hdrive
    | succ fuel =>
      rw [drive_request rfl hnext] at hdrive
      split at hdrive
      · cases hdrive
      · cases hdrive
      · rename_i u hserve
        let active : Stepper := { s with plan := some plan, state := .active }
        have hactive : active.vm.HaltedIn program m := hs
        obtain ⟨hprogressed, hplan⟩ := progressed_serve hactive hfree hserve
        exact progressed_drive (c := hs.plainCall) hprogressed hplan hissued hdrive

/-! ## Where a trap stands -/

section Trapped

variable (hs : s.vm.HaltedIn program m) (hpatched : m.location?.any s.vm.isPatched = true)

include hs hpatched

/-- A free run that starts on a trap. -/
theorem exists_runFreely_stays : ∃ bound t, t.vm.AtRest (.halted m) ∧ t.onBreakpoint = true ∧
    t.plan = s.plan ∧ ∀ fuel ≥ bound, s.runFreely fuel .proceed = some (.ok (), t) := by
  obtain ⟨bound, hbound⟩ := exists_runFreely hs (.inl ⟨hpatched, rfl⟩)
  obtain ⟨⟨answer, t⟩, hrun⟩ := Option.isSome_iff_exists.mp hbound
  obtain ⟨rest, rfl, hat, ⟨-, rfl⟩ | ⟨hgo, -⟩⟩ := runFreely_rests hs hrun
  · have hresumed := resumed_runFreely hrun
    refine ⟨bound, t, hat, ?_, hresumed.plan, fun fuel hle => runFreely_mono hle hrun⟩
    rw [hresumed.onBreakpoint, hat.haltedAt?]
    exact hpatched
  · exact absurd hpatched hgo

/-- A request that is made on a trap notes it and leaves the call where it is. -/
theorem exists_serve_stays (request : Request) : ∃ bound t, t.vm.AtRest (.halted m) ∧
    t.onBreakpoint = true ∧ t.plan = s.plan ∧
      ∀ fuel ≥ bound, s.serve fuel request = some (.ok (), t) := by
  by_cases hfirst : s.onBreakpoint = true ∨ request = .step
  · rcases serve_eq hs hfirst with ⟨hfree, -⟩ | ⟨rest, t, hat, hstays, hserve⟩
    · rw [hpatched] at hfree
      cases hfree
    rw [if_pos hpatched] at hstays
    subst hstays
    obtain ⟨hstepped, hserve⟩ := hserve
    have hnote : t.onBreakpoint = true := by
      rw [hstepped.onBreakpoint, hat.haltedAt?]
      exact hpatched
    refine ⟨0, t, hat, hnote, hstepped.plan, fun fuel _ => ?_⟩
    rw [hserve, if_pos hnote]
  · obtain ⟨hnote, hrequest⟩ := not_or.mp hfirst
    cases request with
    | step => exact absurd rfl hrequest
    | proceed =>
      simp only [serve_of_not_onBreakpoint (by simpa using hnote : s.onBreakpoint = false)]
      exact exists_runFreely_stays hs hpatched

/-- A command that is given on a trap is answered as if it were over, and leaves the call where it
is. -/
theorem exists_start_stays (command : Command) : ∃ bound s', s'.vm.AtRest (.halted m) ∧
    ∀ fuel ≥ bound, s.start fuel command = some (.ok true, s') := by
  let starting : Stepper := { s with plan := some { command }, state := .starting }
  have hstarting : starting.vm.HaltedIn program m := hs
  obtain ⟨request, plan, hnext, hissued⟩ := exists_next_begin hstarting command
  let active : Stepper := { s with plan := some plan, state := .active }
  have hactive : active.vm.HaltedIn program m := hs
  obtain ⟨bound, t, hat, hnote, hplan, hserve⟩ := exists_serve_stays hactive hpatched request
  have hover : (plan.next t.observe).1 = .done := by
    apply Plan.next_of_mustStop hissued
    rw [Plan.mustStop, observe, hnote, Bool.true_or]
  refine ⟨bound + 2, t.complete true t.observe.frame, by rwa [vm_complete], fun fuel hle => ?_⟩
  obtain ⟨n, rfl⟩ : ∃ n, fuel = n + 1 + 1 := ⟨fuel - 2, by omega⟩
  rw [start_eq hs.isPaused, drive_request rfl hnext, hserve (n + 1) (by omega)]
  simp only
  rw [drive_done hplan hover, Option.map_some, plan_complete]
  rfl

end Trapped

end Stepper

/-! ## Sessions -/

/-- The operations of a stepper. The programs that it loads were written without traps. -/
def Operation.IsOfStepper : Operation → Prop
  | .stepper (.load program) => program.TrapFree
  | .stepper _ => True
  | _ => False

/-- Every session of a stepper keeps the debuggee sound, whether runs fail or not. -/
theorem Host.Session.isSound {s₀ : Stepper} {failed : Bool} {host : Host} (hnew : s₀.IsNew)
    (hsession : Session Operation.IsOfStepper (.stepper s₀) failed host) :
    ∃ s, host = .stepper s ∧ s.vm.IsSound := by
  induction hsession with
  | new => exact ⟨s₀, rfl, hnew.kept.sound⟩
  | @perform failed host host' fuel operation reply before hpermitted h ih =>
    obtain ⟨s, rfl, hs⟩ := ih
    cases operation with
    | vm operation => exact hpermitted.elim
    | debugger operation => exact hpermitted.elim
    | wrap => exact hpermitted.elim
    | unwrap => exact hpermitted.elim
    | stepper operation =>
      obtain ⟨⟨reply, s'⟩, hperform, heq⟩ := Option.map_eq_some_iff.mp h
      cases heq
      refine ⟨s', rfl, Stepper.isSound_perform ?_ hs hperform⟩
      rintro program rfl
      exact hpermitted

/-- Whether the commands of a stepper make progress is decided by the location at which the call is
halted. Where no trap stands, each that is answered without an error has moved the call on by at
least one instruction of the plain trace. On a trap each is answered as if it were over, within every
sufficient bound, and leaves the call in the same machine. -/
theorem Host.Session.start_progresses {s₀ s : Stepper} {failed : Bool} {program : Program}
    (hnew : s₀.IsNew)
    (hsession : Session Operation.IsOfStepper (.stepper s₀) failed (.stepper s))
    (hprogram : s.vm.plain? = some program) (hpaused : s.vm.isPaused = true) (command : Command) :
    (s.vm.machine.location?.any s.vm.isPatched = false → ∀ fuel flag s',
      s.start fuel command = some (.ok flag, s') → s'.vm.Progressed program s.vm.machine) ∧
    (s.vm.machine.location?.any s.vm.isPatched = true → ∃ bound s',
      s'.vm.AtRest (.halted s.vm.machine) ∧
        ∀ fuel ≥ bound, s.start fuel command = some (.ok true, s')) := by
  obtain ⟨_, heq, hsound⟩ := hsession.isSound hnew
  cases heq
  obtain ⟨program', hhalted⟩ := hsound.haltedIn hpaused
  cases hhalted.plain.symm.trans hprogram
  constructor
  · intro hfree fuel flag s' hstart
    exact Stepper.progressed_start hhalted hfree hstart
  · intro hpatched
    exact Stepper.exists_start_stays hhalted hpatched command

/-- A stepper whose call of a sum is halted on a breakpoint on the addition. -/
def Stepper.onAddition : Stepper :=
  match (((Stepper.ofDebugger {}).load .sum).set ⟨0, 2⟩).call 9 "sum" #[] with
  | some (_, s) => s
  | none => .ofDebugger {}

theorem Host.Session.onAddition :
    Session Operation.IsOfStepper (.stepper (.ofDebugger {})) false (.stepper .onAddition) := by
  have hloaded : Session Operation.IsOfStepper (.stepper (.ofDebugger {})) false
      (.stepper ((Stepper.ofDebugger {}).load .sum)) :=
    .perform .new (show Program.sum.TrapFree by decide)
      (show Host.perform 0 _ (.stepper (.load .sum)) = some _ from rfl)
  have hset := hloaded.perform (by exact trivial)
    (show Host.perform 0 _ (.stepper (.set ⟨0, 2⟩)) = some _ from rfl)
  exact hset.perform (by exact trivial)
    (show Host.perform 9 _ (.stepper (.call "sum" #[])) = some (.stopped .paused, _) from rfl)

theorem Stepper.plain?_onAddition_set :
    (onAddition.set ⟨0, 2⟩).vm.plain? = some Program.sum.unpatched :=
  (onAddition.debugger.sameCall_set ⟨0, 2⟩).plain.trans rfl

theorem Host.Session.onAddition_set :
    Session Operation.IsOfStepper (.stepper (.ofDebugger {})) false
      (.stepper (Stepper.onAddition.set ⟨0, 2⟩)) :=
  .perform .onAddition (by exact trivial)
    (show Host.perform 0 _ (.stepper (.set ⟨0, 2⟩)) = some (.done, _) from rfl)

/-- From a breakpoint on the addition of a sum a step moves the call on. After the breakpoint was set
again, it does not. -/
theorem Host.Session.start_progresses_sum :
    (∃ s', Stepper.onAddition.start 9 .single = some (.ok true, s') ∧
      s'.vm.Progressed Program.sum.unpatched Stepper.onAddition.vm.machine) ∧
    ∃ bound s', s'.vm.AtRest (.halted Stepper.onAddition.vm.machine) ∧
      ∀ fuel ≥ bound, (Stepper.onAddition.set ⟨0, 2⟩).start fuel .single =
        some (.ok true, s') := by
  have hnew : (Stepper.ofDebugger {}).IsNew := ⟨⟨rfl, rfl, rfl⟩, rfl, rfl, rfl, rfl⟩
  constructor
  · have hmoves := (Host.Session.start_progresses hnew .onAddition
      (show _ = some Program.sum.unpatched from rfl) rfl .single).1 rfl
    exact ⟨_, rfl, hmoves 9 true _ rfl⟩
  · exact (Host.Session.start_progresses hnew .onAddition_set Stepper.plain?_onAddition_set rfl
      .single).2 rfl

/-- A step is answered, but has executed nothing of a sum: the trace of the sum never comes back to
the addition. -/
theorem Host.Session.not_progressed_onAddition :
    ∃ s s', Session Operation.IsOfStepper (.stepper (.ofDebugger {})) false (.stepper s) ∧
      s.vm.plain? = some Program.sum.unpatched ∧ s.vm.isPaused = true ∧
      s.start 9 .single = some (.ok true, s') ∧
      ¬s'.vm.Progressed Program.sum.unpatched s.vm.machine := by
  refine ⟨_, _, .onAddition_set, Stepper.plain?_onAddition_set, rfl, rfl, ?_⟩
  rintro ⟨-, ⟨k, -, hafter⟩ | ⟨k, value, hstate, -⟩⟩
  · have hadds : Machine.step Program.sum.unpatched ⟨[⟨0, 2, ⟨#[]⟩, 0⟩], ⟨#[1, 2]⟩⟩ =
        some (.moved ⟨[⟨0, 3, ⟨#[]⟩, 0⟩], ⟨#[3]⟩⟩) := by decide +kernel
    have hreturns : Machine.step Program.sum.unpatched ⟨[⟨0, 3, ⟨#[]⟩, 0⟩], ⟨#[3]⟩⟩ =
        some (.finished 3 ⟨#[3]⟩) := by decide +kernel
    have hnext : Machine.after Program.sum.unpatched k ⟨[⟨0, 3, ⟨#[]⟩, 0⟩], ⟨#[3]⟩⟩ =
        some ⟨[⟨0, 2, ⟨#[]⟩, 0⟩], ⟨#[1, 2]⟩⟩ :=
      (Machine.after_succ_of_moved k hadds).symm.trans hafter
    cases k with
    | zero => cases hnext
    | succ k =>
      rw [Machine.after, hreturns] at hnext
      cases hnext
  · cases hstate

end BytecodeDebugger
