import BytecodeDebugger.Proofs.CallStack
import BytecodeDebugger.Proofs.CommandStops

/-!
# The run requests behind a command of a stepper

A command of a stepper that is given while a call is halted issues run requests, at least one, and
is answered by an error if the last of them was, and only then.

## Implementation notes

A plan that has begun has no request while no call is halted, so every run request resumes a halted
call; were it not so, a command could be rejected after it had run something. The induction over the
requests of a plan carries that the call is halted exactly if the last run request says so.
-/

namespace BytecodeDebugger

namespace Stepper

open Debuggee (Serves)

variable {s s' t : Stepper} {fuel : Nat} {α β : Type}

/-- What a stepper does to answer: it issues run requests, and the last of them is answered by an
error if its own answer is that error, and only then. -/
def Ran (s : Stepper) (answer : Except DebugError α) (s' : Stepper) : Prop :=
  ∃ last, s.vm.Ran last s'.vm ∧ (Reply.ofDebug (fun _ => .flag true) answer).States s'.vm last

namespace Ran

theorem map {answer : Except DebugError α} (h : s.Ran answer s') (f : α → β) :
    s.Ran (answer.map f) s' := by
  obtain ⟨last, hran, hstates⟩ := h
  refine ⟨last, hran, ?_⟩
  cases answer <;> exact hstates

theorem after {answer : Except DebugError α} (h : t.Ran answer s') (hbefore : s.vm.Serves [] t.vm) :
    s.Ran answer s' := by
  obtain ⟨last, hran, hstates⟩ := h
  exact ⟨last, hran.after hbefore, hstates⟩

theorem before {answer : Except DebugError α} (h : s.Ran answer t) (hafter : t.vm.Serves [] s'.vm) :
    s.Ran answer s' := by
  obtain ⟨last, hran, hstates⟩ := h
  exact ⟨last, hran.before hafter, hstates.of_sameCall hafter.sameCall_of_nil⟩

theorem trans {first : Except DebugError α} {answer : Except DebugError β} (h : s.Ran first t)
    (h' : t.Ran answer s') : s.Ran answer s' := by
  obtain ⟨_, ⟨runs, _, hserves, -⟩, -⟩ := h
  obtain ⟨last, hran, hstates⟩ := h'
  exact ⟨last, hran.after hserves, hstates⟩

end Ran

/-- Resuming a halted call is a run request, which says whether the call is halted again. -/
theorem ran_resume {answer : Except DebugError Bool} (hpaused : s.vm.isPaused = true)
    (h : s.resume fuel = some (answer, s')) :
    s.Ran answer s' ∧ (answer = .ok true → s'.vm.isPaused = true) := by
  obtain ⟨run, vm, hrun, hnoted, hanswer⟩ := resume_eq_some h
  have hran := (Debuggee.ran_resume hpaused hrun).before hnoted
  obtain ⟨rfl, rfl⟩ | ⟨value, rfl, rfl⟩ | ⟨error, rfl, rfl⟩ := hanswer
  · refine ⟨⟨_, hran, .flag true .paused⟩, fun _ => ?_⟩
    obtain ⟨-, place, hplace⟩ | ⟨hanswer, -⟩ := hran.rest
    · exact (Debuggee.isPaused_of_haltedAt? hplace).1
    · exact absurd rfl hanswer
  · exact ⟨⟨_, hran, .flag true (.finished value)⟩, nofun⟩
  · exact ⟨⟨_, hran, .failed error⟩, nofun⟩

theorem ran_proceed {answer : Except DebugError Unit} (hpaused : s.vm.isPaused = true)
    (h : s.runFreely fuel .proceed = some (answer, s')) : s.Ran answer s' ∧ s'.plan = s.plan := by
  obtain ⟨⟨resumed, t⟩, hresume, heq⟩ := Option.map_eq_some_iff.mp h
  have hfree := (s.debugger.touched_setStepping false).vm
  obtain ⟨hran, -⟩ := ran_resume (s := s.setStepping false) hpaused hresume
  cases heq
  exact ⟨(hran.map _).after hfree, (resumed_resume hresume).plan⟩

/-- A request of a plan is served by run requests of a halted call. -/
theorem ran_serve {request : Request} {answer : Except DebugError Unit}
    (hpaused : s.vm.isPaused = true) (h : s.serve fuel request = some (answer, s')) :
    s.Ran answer s' ∧ s'.plan = s.plan := by
  simp only [serve] at h
  split at h
  · have hstepping := (s.debugger.touched_setStepping true).vm
    split at h
    · cases h
    · rename_i error t hresume
      obtain ⟨hran, -⟩ := ran_resume (s := s.setStepping true) hpaused hresume
      cases h
      exact ⟨(hran.map id).after hstepping, (resumed_resume hresume).plan⟩
    · rename_i halted t hresume
      obtain ⟨hran, hagain⟩ := ran_resume (s := s.setStepping true) hpaused hresume
      have hrearmed : t.vm.Serves [] (t.rearm (s.vm.frameInfo? 0)).vm := by
        cases s.vm.frameInfo? 0 with
        | none => exact .refl
        | some frame => exact (t.debugger.touched_rearm frame).vm
      have hstepped := (hran.after hstepping).before hrearmed
      have hplan : (t.rearm (s.vm.frameInfo? 0)).plan = s.plan :=
        (sameCommand_rearm t _).plan.trans (resumed_resume hresume).plan
      split at h
      · cases h
        exact ⟨hstepped.map fun _ => (), hplan⟩
      · rename_i hgo
        cases request with
        | step =>
          cases h
          exact ⟨hstepped.map fun _ => (), hplan⟩
        | proceed =>
          have hhalted : halted = true := by
            cases halted with
            | true => rfl
            | false => exact absurd rfl hgo
          rw [hhalted] at hagain
          have hpaused : (t.rearm (s.vm.frameInfo? 0)).vm.isPaused = true :=
            hrearmed.sameCall_of_nil.isPaused.trans (hagain rfl)
          obtain ⟨hfree, hkept⟩ := ran_proceed hpaused h
          exact ⟨hstepped.trans hfree, hkept.trans hplan⟩
  · rename_i hgo
    cases request with
    | step => simp at hgo
    | proceed => exact ran_proceed hpaused h

/-- Serving the requests of a plan that has begun, by induction on the bound. A plan has no request
without a halted call. -/
theorem Ran.drive {plan : Plan} {starting : Bool} {answer : Except DebugError Unit}
    (hran : s.Ran (.ok ()) t) (hplan : t.plan = some plan) (hissued : plan.phase ≠ .start)
    (h : t.drive starting fuel = some (answer, s')) : s.Ran answer s' := by
  induction fuel generalizing t plan with
  | zero => cases h
  | succ fuel ih =>
    have hover (hdone : (plan.next t.observe).1 = .done) : s.Ran answer s' := by
      rw [drive_done hplan hdone] at h
      cases h
      have hcompleted : t.vm.Serves [] (t.complete starting t.observe.frame).vm := by
        rw [vm_complete]
        exact .refl
      exact hran.before hcompleted
    cases hpaused : t.vm.isPaused with
    | false =>
      apply hover
      apply Plan.next_of_mustStop hissued
      rw [Plan.mustStop, frame_observe hpaused]
      exact Bool.or_true _
    | true =>
      obtain ⟨next, plan', hnext⟩ : ∃ next plan', plan.next t.observe = (next, plan') :=
        ⟨_, _, rfl⟩
      cases next with
      | done => exact hover (by rw [hnext])
      | request request =>
        let active : Stepper := { t with plan := some plan', state := .active }
        rw [drive_request hplan hnext] at h
        split at h
        · cases h
        · rename_i error u hserve
          cases h
          exact hran.trans (ran_serve (s := active) hpaused hserve).1
        · rename_i u hserve
          obtain ⟨hserved, hkept⟩ := ran_serve (s := active) hpaused hserve
          exact ih (hran.trans hserved) hkept (Plan.phase_ne_start hnext) h

/-- A command is served by run requests, if a call is halted. -/
theorem ran_start {command : Command} {answer : Except DebugError Bool} (hvm : s.vm.Consistent)
    (hpaused : s.vm.isPaused = true) (h : s.start fuel command = some (answer, s')) :
    s.Ran answer s' := by
  rw [start_eq hpaused] at h
  obtain ⟨⟨driven, t⟩, hdrive, heq⟩ := Option.map_eq_some_iff.mp h
  let starting : Stepper := { s with plan := some { command }, state := .starting }
  obtain ⟨place, hplace⟩ := Debuggee.location?_eq_some (hvm.paused_iff.mp hpaused)
  have hframe : starting.observe.frame = some ⟨s.vm.programId, place.function, place.address⟩ := by
    have hat : s.vm.haltedAt? = some place := (Debuggee.haltedAt?_of_isPaused hpaused).trans hplace
    have hobserved : starting.observe.frame = s.vm.frameInfo? 0 := if_pos hpaused
    rw [hobserved, Debuggee.frameInfo?_of_haltedAt? hat]
  obtain ⟨request, plan, hnext⟩ := Plan.exists_next hframe command
  let active : Stepper := { s with plan := some plan, state := .active }
  have hran : s.Ran driven t := by
    cases fuel with
    | zero => cases hdrive
    | succ fuel =>
      rw [drive_request rfl hnext] at hdrive
      split at hdrive
      · cases hdrive
      · rename_i error u hserve
        cases hdrive
        exact (ran_serve (s := active) hpaused hserve).1
      · rename_i u hserve
        obtain ⟨hserved, hkept⟩ := ran_serve (s := active) hpaused hserve
        have hfirst : s.Ran (.ok ()) u := hserved
        exact hfirst.drive hkept (Plan.phase_ne_start hnext) hdrive
  cases driven with
  | ok value =>
    cases heq
    exact hran.map fun _ => s'.plan.isNone
  | error error =>
    cases heq
    exact hran.map fun _ => true

end Stepper

end BytecodeDebugger
