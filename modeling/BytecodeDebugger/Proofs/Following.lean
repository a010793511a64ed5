import BytecodeDebugger.Proofs.Resumption

/-!
# Following the plain trace

A debuggee follows a call if it is halted at a machine of the call's plain trace, or ended as the
plain trace ends. Every request of a debugger and of a stepper that moves a halted call on keeps the
debuggee following, and never goes back in the trace.

## Implementation notes

The count `k` of instructions is part of the relation. The trace can pass through one machine twice,
so the debuggee does not determine the count, and that it never decreases has to be carried along.
-/

namespace BytecodeDebugger

/-- A call as it goes without a debugger: a program as it was written, without traps, and the machine
in which the call begins. -/
structure PlainCall where
  program : Program
  start : Machine
  trapFree : program.TrapFree
  frames_ne_nil : start.frames ≠ []

namespace PlainCall

/-- The call that enters a routine of a program from its start. -/
def ofRoutine (p : Program) (hfree : p.TrapFree) (function : Nat) (args : Array Int32) :
    PlainCall where
  program := p.unpatched
  start := Machine.start function args
  trapFree place i hi := hfree place i (by rwa [Program.instructionAt?_unpatched] at hi)
  frames_ne_nil := List.cons_ne_nil _ _

end PlainCall

namespace Debuggee

/-- The debuggee has come through `k` instructions of a call: it is halted there, or the next of them
ended the call. -/
def Follows (c : PlainCall) (k : Nat) (vm : Debuggee) : Option Ending → Prop
  | none =>
    vm.plain? = some c.program ∧ vm.state = .paused ∧ c.start.after c.program k = some vm.machine
  | some ending =>
    vm.plain? = some c.program ∧ vm.state = .finished ∧ c.start.EndsAfter c.program k ending ∧
      ∀ value, ending = .returned value → vm.returnValue = value

/-- The answer to a run request that left a call halted or ended. -/
def restAnswer : Option Ending → Except RunError Stop
  | none => .ok .paused
  | some ending => ending.answer

variable {c : PlainCall} {k fuel : Nat} {vm vm' : Debuggee} {ending? : Option Ending}
  {answer : Except RunError Stop}

theorem Follows.isPaused_eq (h : vm.Follows c k ending?) : vm.isPaused = ending?.isNone := by
  cases ending? with
  | none =>
    rw [isPaused, h.2.1]
    rfl
  | some ending =>
    rw [isPaused, h.2.1]
    rfl

/-- Requests that run nothing keep the debuggee where it is. -/
theorem Follows.of_sameCall (hsame : SameCall vm vm') (h : vm.Follows c k ending?) :
    vm'.Follows c k ending? := by
  cases ending? with
  | none =>
    obtain ⟨hplain, hstate, hafter⟩ := h
    exact ⟨hsame.plain.trans hplain, hsame.state.trans hstate, hsame.machine ▸ hafter⟩
  | some ending =>
    obtain ⟨hplain, hstate, hends, hvalue⟩ := h
    refine ⟨hsame.plain.trans hplain, hsame.state.trans hstate, hends, fun value hreturned => ?_⟩
    exact hsame.returnValue.trans (hvalue value hreturned)

/-- A halted call that is followed has a frame. -/
theorem Follows.frameInfo? (h : vm.Follows c k none) : ∃ frame, vm.frameInfo? 0 = some frame := by
  obtain ⟨frame, callers, hframes⟩ :=
    List.exists_cons_of_ne_nil (Machine.frames_ne_nil_of_after c.frames_ne_nil h.2.2)
  exact ⟨⟨vm.programId, frame.function, frame.pc⟩, by simp [Debuggee.frameInfo?, hframes]⟩

/-- A run request from a machine of the plain trace goes on in it. -/
theorem follows_run (hplain : vm.plain? = some c.program)
    (hafter : c.start.after c.program k = some vm.machine)
    (h : vm.run fuel = some (answer, vm')) :
    ∃ k' ending?, k ≤ k' ∧ answer = restAnswer ending? ∧ vm'.Follows c k' ending? := by
  obtain ⟨p, hp, hprogram⟩ := Option.map_eq_some_iff.mp hplain
  have hfree : p.TrapFree := by
    intro place i hi
    apply c.trapFree place i
    rw [← hprogram, Program.instructionAt?_unpatched, hi]
  have hframes := Machine.frames_ne_nil_of_after c.frames_ne_nil hafter
  obtain ⟨hsame, j, hrest⟩ := run_plain hp hfree hframes h
  rw [hprogram] at hrest
  have hplain' : vm'.plain? = some c.program := by
    rw [plain?, hsame.program]
    exact hplain
  refine ⟨k + j, ?_⟩
  rcases hrest with ⟨hanswer, hstate, hj⟩ | ⟨ending, hanswer, hstate, hvalue, hends⟩
  · exact ⟨none, by omega, hanswer, hplain', hstate, (Machine.after_add j hafter).trans hj⟩
  · exact ⟨some ending, by omega, hanswer, hplain', hstate, hends.of_after hafter, hvalue⟩

theorem follows_resume (hvm : vm.Follows c k none) (h : vm.resume fuel = some (answer, vm')) :
    ∃ k' ending?, k ≤ k' ∧ answer = restAnswer ending? ∧ vm'.Follows c k' ending? := by
  have hpaused : vm.isPaused = true := hvm.isPaused_eq
  rw [resume, if_pos hpaused] at h
  exact follows_run hvm.1 hvm.2.2 h

/-- A call that is accepted is a run request from the start of its routine. -/
theorem call_eq {p : Program} {name : String} {function : Nat} (args : Array Int32)
    (hp : vm.program = some p) (hpaused : vm.isPaused = false)
    (hname : p.lookup? name = some function) (hroutine : (p.routine? function).isSome) :
    vm.call fuel name args = { vm with machine := Machine.start function args }.run fuel := by
  have hfound : ((p.lookup? name).filter fun index => (p.routine? index).isSome) =
      some function := by
    rw [hname, Option.filter_some, if_pos hroutine]
  rw [call, hpaused, if_neg Bool.false_ne_true]
  split
  · rename_i hnone
    rw [hp] at hnone
    cases hnone
  · rename_i q hq
    cases hp.symm.trans hq
    split
    · rename_i hnone
      rw [hfound] at hnone
      cases hnone
    · rename_i index hindex
      cases hfound.symm.trans hindex
      rfl

/-- A call of a routine follows the plain call. -/
theorem follows_call {p : Program} {name : String} {function : Nat} {args : Array Int32}
    (hfree : p.TrapFree) (hp : vm.program = some p) (hpaused : vm.isPaused = false)
    (hname : p.lookup? name = some function) (hroutine : (p.routine? function).isSome)
    (h : vm.call fuel name args = some (answer, vm')) :
    ∃ k ending?, answer = restAnswer ending? ∧
      vm'.Follows (.ofRoutine p hfree function args) k ending? := by
  rw [call_eq args hp hpaused hname hroutine] at h
  have hplain : { vm with machine := Machine.start function args }.plain? = some p.unpatched := by
    rw [plain?, hp, Option.map_some]
  obtain ⟨k, ending?, -, hanswer, hvm'⟩ :=
    follows_run (k := 0) (c := .ofRoutine p hfree function args) hplain rfl h
  exact ⟨k, ending?, hanswer, hvm'⟩

end Debuggee

namespace Debugger

variable {c : PlainCall} {k fuel : Nat} {d d' : Debugger} {answer : Except DebugError StepOutcome}

/-- The answers to a stepping command that left a call halted or ended. -/
def RestAnswer (answer : Except DebugError StepOutcome) : Option Ending → Prop
  | none => ∃ frame onBreakpoint, answer = .ok (.paused frame onBreakpoint)
  | some (.returned value) => answer = .ok (.finished value)
  | some (.faulted place fault) => answer = .error (.run (.fault place fault))

/-- The debuggee of a debugger follows the call, no less far than `k` instructions, to where the
answer of a stepping command says. -/
def FollowsTo (c : PlainCall) (k : Nat) (answer : Except DebugError StepOutcome) (d : Debugger) :
    Prop :=
  ∃ k' ending?, k ≤ k' ∧ RestAnswer answer ending? ∧ d.vm.Follows c k' ending?

theorem followsTo_resume (hd : d.vm.Follows c k none) (h : d.resume fuel = some (answer, d')) :
    d'.FollowsTo c k answer := by
  rw [resume] at h
  obtain ⟨⟨run, vm⟩, hrun, heq⟩ := Option.map_eq_some_iff.mp h
  obtain ⟨k', ending?, hle, rfl, hvm⟩ := Debuggee.follows_resume hd hrun
  match ending? with
  | none =>
    obtain ⟨frame, hframe⟩ := hvm.frameInfo?
    simp only [Debuggee.restAnswer, hframe] at heq
    cases heq
    refine ⟨k', none, hle, ⟨_, _, rfl⟩, hvm.of_sameCall ?_⟩
    exact sameCall_restoreFrame { d with vm } frame
  | some (.returned value) =>
    cases heq
    exact ⟨k', some (.returned value), hle, rfl, hvm⟩
  | some (.faulted place fault) =>
    cases heq
    exact ⟨k', some (.faulted place fault), hle, rfl, hvm⟩

theorem FollowsTo.mono {k' : Nat} (hle : k ≤ k') (h : d.FollowsTo c k' answer) :
    d.FollowsTo c k answer := by
  obtain ⟨j, ending?, hj, hrest⟩ := h
  exact ⟨j, ending?, Nat.le_trans hle hj, hrest⟩

theorem FollowsTo.of_sameCall (hsame : Debuggee.SameCall d.vm d'.vm) (h : d.FollowsTo c k answer) :
    d'.FollowsTo c k answer := by
  obtain ⟨k', ending?, hle, hanswer, hvm⟩ := h
  exact ⟨k', ending?, hle, hanswer, hvm.of_sameCall hsame⟩

/-- A command that was served and does not report the end of the call left it halted. -/
theorem FollowsTo.halted {frame : FrameInfo} {onBreakpoint : Bool}
    (h : d.FollowsTo c k (.ok (.paused frame onBreakpoint))) :
    ∃ k', k ≤ k' ∧ d.vm.Follows c k' none := by
  obtain ⟨k', ending?, hle, hanswer, hvm⟩ := h
  match ending? with
  | none => exact ⟨k', hle, hvm⟩
  | some (.returned value) => cases hanswer
  | some (.faulted place fault) => cases hanswer

theorem FollowsTo.halted_of_not_isStopPoint {outcome : StepOutcome}
    (hstop : ¬d.isStopPoint outcome = true) (h : d.FollowsTo c k (.ok outcome)) :
    ∃ k', k ≤ k' ∧ d.vm.Follows c k' none := by
  cases outcome with
  | finished value => exact absurd rfl hstop
  | paused frame onBreakpoint => exact h.halted

theorem pausedFrame?_of_follows (hd : d.vm.Follows c k none) :
    ∃ frame, d.pausedFrame? = some frame := by
  obtain ⟨frame, hframe⟩ := hd.frameInfo?
  have hpaused : d.vm.isPaused = true := hd.isPaused_eq
  exact ⟨frame, by rw [pausedFrame?, if_pos hpaused, hframe]⟩

theorem followsTo_stepInstruction (hd : d.vm.Follows c k none)
    (h : d.stepInstruction fuel = some (answer, d')) : d'.FollowsTo c k answer := by
  obtain ⟨origin, horigin⟩ := pausedFrame?_of_follows hd
  rw [stepInstruction, horigin] at h
  obtain ⟨⟨resumed, e⟩, hresume, heq⟩ := Option.map_eq_some_iff.mp h
  have he : e.FollowsTo c k resumed := by
    apply followsTo_resume (hd.of_sameCall _) hresume
    exact (d.sameCall_restoreFrame origin).trans (Debuggee.sameCall_setStepping _ true)
  cases resumed with
  | error error =>
    cases heq
    exact he
  | ok outcome =>
    cases heq
    exact he.of_sameCall (e.sameCall_rearm origin)

/-- Stepping on to a stop point, by induction on the bound: each instruction that is no stop point
left the call halted, so the next one can be executed. -/
theorem followsTo_stepToStopPoint (hd : d.vm.Follows c k none)
    (h : d.stepToStopPoint fuel = some (answer, d')) : d'.FollowsTo c k answer := by
  induction fuel generalizing d k with
  | zero => cases h
  | succ fuel ih =>
    rw [stepToStopPoint] at h
    split at h
    · cases h
    · rename_i error e hstep
      cases h
      exact followsTo_stepInstruction hd hstep
    · rename_i outcome e hstep
      have he := followsTo_stepInstruction hd hstep
      split at h
      · cases h
        exact he
      · rename_i hstop
        obtain ⟨k', hle, hhalted⟩ := he.halted_of_not_isStopPoint hstop
        exact (ih hhalted h).mono hle

theorem followsTo_runOverCall {origin : FrameInfo} {stepped : StepOutcome}
    (hd : d.vm.Follows c k none) (hstepped : d.FollowsTo c k (.ok stepped))
    (h : d.runOverCall fuel origin stepped = some (answer, d')) : d'.FollowsTo c k answer := by
  cases htarget : d.overTarget? origin with
  | none =>
    rw [runOverCall, htarget] at h
    cases h
    exact hstepped
  | some target =>
    rw [runOverCall_eq _ _ htarget] at h
    obtain ⟨⟨resumed, e⟩, hresume, heq⟩ := Option.map_eq_some_iff.mp h
    have he : e.FollowsTo c k resumed := by
      apply followsTo_resume (hd.of_sameCall _) hresume
      exact (d.sameCall_rearmAll.trans (Debuggee.sameCall_patch _ target)).trans
        (Debuggee.sameCall_setStepping _ false)
    cases heq
    cases (d.rearmAll.patch target).1 with
    | true => exact he.of_sameCall (e.vm.sameCall_restore target)
    | false => exact he

theorem followsTo_reported {command : Answer StepOutcome}
    (hcommand : ∀ answer d', command = some (answer, d') → d'.FollowsTo c k answer)
    (h : reported command = some (answer, d')) : d'.FollowsTo c k answer := by
  obtain ⟨⟨answer, e⟩, rfl, heq⟩ := Option.map_eq_some_iff.mp h
  have he := hcommand answer e rfl
  cases answer with
  | error error =>
    cases heq
    exact he
  | ok outcome =>
    cases heq
    cases outcome with
    | paused frame onBreakpoint => exact he.of_sameCall (.refl e.vm)
    | finished value => exact he.of_sameCall (.refl e.vm)

theorem followsTo_stepInto (hd : d.vm.Follows c k none)
    (h : d.stepInto fuel = some (answer, d')) : d'.FollowsTo c k answer :=
  followsTo_reported (fun _ _ => followsTo_stepToStopPoint hd) h

theorem followsTo_stepNext (hd : d.vm.Follows c k none)
    (h : d.stepNext fuel = some (answer, d')) : d'.FollowsTo c k answer := by
  obtain ⟨origin, horigin⟩ := pausedFrame?_of_follows hd
  simp only [stepNext, horigin] at h
  split at h
  · cases h
  · rename_i error e hstep
    cases h
    exact followsTo_stepInstruction hd hstep
  · rename_i outcome e hstep
    have he := followsTo_stepInstruction hd hstep
    refine followsTo_reported (fun answer d' hcommand => ?_) h
    split at hcommand
    · obtain ⟨k', hle, hhalted⟩ := he.halted
      refine (followsTo_runOverCall hhalted ?_ hcommand).mono hle
      exact ⟨k', none, Nat.le_refl k', ⟨_, _, rfl⟩, hhalted⟩
    · split at hcommand
      · cases hcommand
        exact he
      · rename_i hstop
        obtain ⟨k', hle, hhalted⟩ := he.halted_of_not_isStopPoint hstop
        exact (followsTo_stepToStopPoint hhalted hcommand).mono hle

theorem followsTo_proceed (hd : d.vm.Follows c k none)
    (h : d.proceed fuel = some (answer, d')) : d'.FollowsTo c k answer := by
  rw [proceed] at h
  split at h
  · cases h
  · rename_i error e hstep
    cases h
    exact followsTo_stepInstruction hd hstep
  · rename_i outcome e hstep
    have he := followsTo_stepInstruction hd hstep
    refine followsTo_reported (fun answer d' hcommand => ?_) h
    split at hcommand
    · obtain ⟨k', hle, hhalted⟩ := he.halted
      refine (followsTo_resume (hhalted.of_sameCall ?_) hcommand).mono hle
      exact e.sameCall_rearmAll.trans (Debuggee.sameCall_setStepping _ false)
    · cases hcommand
      exact he

end Debugger

namespace Debuggee

variable {c : PlainCall} {k : Nat} {vm vm' : Debuggee} {α : Type}

/-- The debuggee follows the call, no less far than `k` instructions, and did not fault. -/
def FollowsOn (c : PlainCall) (k : Nat) (vm : Debuggee) : Prop :=
  ∃ k', k ≤ k' ∧ (vm.Follows c k' none ∨ ∃ value, vm.Follows c k' (some (.returned value)))

/-- The debuggee follows the call to where an answer says: to the end that it states, and otherwise
not so far. -/
def FollowsAnswer (c : PlainCall) (k : Nat) (vm : Debuggee) : Except DebugError α → Prop
  | .ok _ => vm.FollowsOn c k
  | .error error =>
    match error.ending? with
    | some ending => ∃ k', k ≤ k' ∧ vm.Follows c k' (some ending)
    | none => vm.FollowsOn c k

theorem FollowsOn.of_sameCall (hsame : SameCall vm vm') (h : vm.FollowsOn c k) :
    vm'.FollowsOn c k := by
  obtain ⟨k', hle, hhalted | ⟨value, hreturned⟩⟩ := h
  · exact ⟨k', hle, .inl (hhalted.of_sameCall hsame)⟩
  · exact ⟨k', hle, .inr ⟨value, hreturned.of_sameCall hsame⟩⟩

theorem FollowsOn.rest (h : vm.FollowsOn c k) : ∃ k' ending?, k ≤ k' ∧ vm.Follows c k' ending? := by
  obtain ⟨k', hle, hhalted | ⟨value, hreturned⟩⟩ := h
  · exact ⟨k', none, hle, hhalted⟩
  · exact ⟨k', some (.returned value), hle, hreturned⟩

/-- Only the error of an answer says where the call is. -/
theorem FollowsAnswer.map {β : Type} {answer : Except DebugError α} (f : α → β)
    (h : vm.FollowsAnswer c k answer) : vm.FollowsAnswer c k (answer.map f) := by
  cases answer with
  | ok value => exact h
  | error error => exact h

end Debuggee

namespace Stepper

variable {c : PlainCall} {k fuel : Nat} {s s' : Stepper}

theorem follows_resume {answer : Except DebugError Bool} (hs : s.vm.FollowsOn c k)
    (h : s.resume fuel = some (answer, s')) : s'.vm.FollowsAnswer c k answer := by
  simp only [resume, vm_setPaused] at h
  obtain ⟨⟨run, vm⟩, hrun, heq⟩ := Option.map_eq_some_iff.mp h
  obtain ⟨j, hj, hhalted | ⟨value, hreturned⟩⟩ := hs
  · obtain ⟨k', ending?, hle, rfl, hvm⟩ := Debuggee.follows_resume hhalted hrun
    have hle : k ≤ k' := Nat.le_trans hj hle
    cases ending? with
    | none =>
      cases heq
      exact ⟨k', hle, .inl (hvm.of_sameCall (sameCall_noteBreak _))⟩
    | some ending =>
      cases ending with
      | returned value =>
        cases heq
        rw [vm_noteFinished]
        exact ⟨k', hle, .inr ⟨value, hvm⟩⟩
      | faulted place fault =>
        cases heq
        rw [vm_noteError]
        exact ⟨k', hle, hvm⟩
  · rw [Debuggee.resume_of_not_isPaused hreturned.isPaused_eq] at hrun
    cases hrun
    cases heq
    rw [vm_noteError]
    exact ⟨j, hj, .inr ⟨value, hreturned⟩⟩

theorem follows_runFreely {request : Request} {answer : Except DebugError Unit}
    (hs : s.vm.FollowsOn c k) (h : s.runFreely fuel request = some (answer, s')) :
    s'.vm.FollowsAnswer c k answer := by
  cases request with
  | step =>
    cases h
    exact hs
  | proceed =>
    obtain ⟨⟨resumed, t⟩, hresume, heq⟩ := Option.map_eq_some_iff.mp h
    cases heq
    have hfree : (s.setStepping false).vm.FollowsOn c k :=
      hs.of_sameCall (Debuggee.sameCall_setStepping _ false)
    exact (follows_resume hfree hresume).map _

theorem follows_serve {request : Request} {answer : Except DebugError Unit}
    (hs : s.vm.FollowsOn c k) (h : s.serve fuel request = some (answer, s')) :
    s'.vm.FollowsAnswer c k answer := by
  simp only [serve] at h
  split at h
  · have hstepping : (s.setStepping true).vm.FollowsOn c k :=
      hs.of_sameCall (Debuggee.sameCall_setStepping _ true)
    split at h
    · cases h
    · rename_i error t hresume
      cases h
      exact follows_resume hstepping hresume
    · rename_i halted t hresume
      have ht : t.vm.FollowsOn c k := follows_resume hstepping hresume
      have hrearm := ht.of_sameCall (t.sameCall_rearm (s.vm.frameInfo? 0))
      split at h
      · cases h
        exact hrearm
      · exact follows_runFreely hrearm h
  · exact follows_runFreely hs h

theorem follows_advance {starting : Bool} {answer : Except DebugError Bool}
    (hs : s.vm.FollowsOn c k) (h : s.advance starting fuel = some (answer, s')) :
    s'.vm.FollowsAnswer c k answer := by
  simp only [advance] at h
  split at h
  · cases h
    rw [vm_complete]
    exact hs
  · split at h
    · cases h
      rw [vm_complete]
      exact hs
    · rename_i request plan hnext
      obtain ⟨⟨served, t⟩, hserve, heq⟩ := Option.map_eq_some_iff.mp h
      cases heq
      have hactive : { s with plan := some plan, state := .active }.vm.FollowsOn c k := hs
      exact (follows_serve hactive hserve).map _

/-- Serving the requests of a plan, by induction on the bound. -/
theorem follows_drive {starting : Bool} {answer : Except DebugError Unit}
    (hs : s.vm.FollowsOn c k) (h : s.drive starting fuel = some (answer, s')) :
    s'.vm.FollowsAnswer c k answer := by
  induction fuel generalizing s with
  | zero => cases h
  | succ fuel ih =>
    rw [drive] at h
    split at h
    · cases h
    · rename_i error t hadvance
      cases h
      exact follows_advance hs hadvance
    · rename_i t hadvance
      cases h
      exact follows_advance hs hadvance
    · rename_i t hadvance
      exact ih (follows_advance hs hadvance) h

theorem follows_start {command : Command} {answer : Except DebugError Bool}
    (hs : s.vm.FollowsOn c k) (h : s.start fuel command = some (answer, s')) :
    s'.vm.FollowsAnswer c k answer := by
  rw [start] at h
  split at h
  · obtain ⟨⟨driven, t⟩, hdrive, heq⟩ := Option.map_eq_some_iff.mp h
    have hstarting :
        { s with plan := some { command }, state := .starting }.vm.FollowsOn c k := hs
    have ht := follows_drive hstarting hdrive
    cases driven with
    | ok value =>
      cases heq
      exact ht
    | error error =>
      cases heq
      exact ht
  · cases h
    exact hs

end Stepper

end BytecodeDebugger
