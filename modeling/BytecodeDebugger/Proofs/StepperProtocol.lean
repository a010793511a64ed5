import BytecodeDebugger.Proofs.Armed
import Mathlib.Data.List.Chain

/-!
# What a stepper tells its subscribers

Between its operations a stepper has no command in progress, and what it has told its subscribers is
true: the subscribers of `pauses` heard of each change between halted and not halted, in turn, and
the last they heard is how the debuggee is. The subscribers of `breaks` heard of each call that
halted, once, and of nothing else.

## Implementation notes

While a request is served, a stepper says that the call is not halted, and corrects that when the
request is answered. So in the middle of an operation only `Alternates` is kept, which does not
mention the debuggee; `Truthful` holds again once the answer was noted.

A list of values alternates from not halted on if no two neighbours in it are equal, the first of
them being compared with `false`.
-/

namespace BytecodeDebugger

namespace Channel

variable {α : Type}

/-- What was delivered to a subscriber, the oldest first. -/
def heard (c : Channel α) (subscriber : Nat) : List α :=
  c.log.toList.filterMap fun (i, value) => if i = subscriber then some value else none

/-- Among the first subscribers each one is met once. -/
theorem filterMap_range {n subscriber : Nat} (value : α) :
    ((List.range n).map fun i => (i, value)).filterMap
        (fun (i, value) => if i = subscriber then some value else none) =
      if subscriber < n then [value] else [] := by
  induction n with
  | zero => rfl
  | succ n ih =>
    rw [List.range_succ, List.map_append, List.filterMap_append, ih]
    by_cases hlast : n = subscriber
    · simp [hlast]
    · by_cases hlt : subscriber < n
      · simp [hlast, hlt, Nat.lt_succ_of_lt hlt]
      · have hge : ¬subscriber < n + 1 := by omega
        simp [hlast, hlt, hge]

/-- A subscriber hears of a value exactly once. -/
theorem heard_notify (c : Channel α) {subscriber : Nat} (h : subscriber < c.subscribers)
    (value : α) : (c.notify value).heard subscriber = c.heard subscriber ++ [value] := by
  rw [heard, notify, Array.toList_append, List.filterMap_append, List.toList_toArray,
    filterMap_range, if_pos h]
  rfl

end Channel

namespace Stepper

open Debuggee (SameCall)

variable {s s' : Stepper} {fuel : Nat}

/-! ## What the subscribers hear -/

/-- Every subscriber heard of pauses in turn, and last of the one recorded. -/
def Alternates (s : Stepper) : Prop :=
  ∀ i < s.pauses.subscribers, (false :: s.pauses.heard i).IsChain (· ≠ ·) ∧
    (false :: s.pauses.heard i).getLast? = some s.paused

/-- What the subscribers know of a stepper is true, and so is its note of a breakpoint. -/
structure Truthful (s : Stepper) : Prop where
  paused : s.paused = s.vm.isPaused
  onBreakpoint : s.onBreakpoint = true → s.vm.isPaused = true
  alternates : s.Alternates

theorem paused_setPaused (s : Stepper) (paused : Bool) : (s.setPaused paused).paused = paused := by
  rw [setPaused]
  split
  · assumption
  · rfl

/-- Subscribers are told of a change only, so what they hear alternates. -/
theorem Alternates.setPaused (h : s.Alternates) (paused : Bool) :
    (s.setPaused paused).Alternates := by
  rw [Stepper.setPaused]
  split
  · exact h
  · rename_i hchange
    intro i hi
    obtain ⟨hchain, hlast⟩ := h i hi
    simp only [s.pauses.heard_notify hi, ← List.cons_append]
    constructor
    · apply List.isChain_append.mpr
      refine ⟨hchain, List.isChain_singleton paused, ?_⟩
      intro before hbefore after hafter
      cases hlast.symm.trans hbefore
      cases hafter
      exact hchange
    · exact List.getLast?_concat

/-! ## Halts and ends -/

/-- What changes the debugger alone, and not the call, leaves a stepper truthful. -/
theorem Truthful.withDebugger {d : Debugger} (h : s.Truthful) (hsame : SameCall s.vm d.vm) :
    Truthful { s with debugger := d } := by
  have hpaused : d.vm.isPaused = s.vm.isPaused := hsame.isPaused
  refine ⟨h.paused.trans hpaused.symm, ?_, h.alternates⟩
  intro hnote
  exact hpaused.trans (h.onBreakpoint hnote)

theorem Truthful.setStepping (h : s.Truthful) (on : Bool) : (s.setStepping on).Truthful :=
  h.withDebugger (s.vm.sameCall_setStepping on)

theorem Truthful.rearm (h : s.Truthful) (origin : Option FrameInfo) :
    (s.rearm origin).Truthful := by
  cases origin with
  | none => exact h
  | some frame => exact h.withDebugger (s.debugger.sameCall_rearm frame)

theorem truthful_noteBreak (h : s.Alternates) (hpaused : s.vm.isPaused = true) :
    s.noteBreak.Truthful := by
  have hnoted : s.noteBreak.vm.isPaused = true :=
    (sameCall_noteBreak s).isPaused.trans hpaused
  have htold : s.noteBreak.paused = true ∧ s.noteBreak.pauses = (s.setPaused true).pauses := by
    simp only [noteBreak]
    split
    · exact ⟨paused_setPaused s true, rfl⟩
    · split <;> exact ⟨paused_setPaused s true, rfl⟩
  refine ⟨htold.1.trans hnoted.symm, fun _ => hnoted, ?_⟩
  have halternates := h.setPaused true
  rw [Alternates, paused_setPaused] at halternates
  rwa [Alternates, htold.1, htold.2]

theorem truthful_noteFinished (h : s.Alternates) (hpaused : s.vm.isPaused = false) :
    s.noteFinished.Truthful := by
  have hnoted : s.noteFinished.vm.isPaused = false := by rwa [vm_noteFinished]
  refine ⟨(paused_setPaused _ false).trans hnoted.symm, ?_, ?_⟩
  · rw [onBreakpoint_noteFinished]
    intro hnote
    cases hnote
  · have hs : Alternates { s with onBreakpoint := false } := h
    exact hs.setPaused false

/-! ## Requests of a plan -/

/-- Resuming a call leaves a stepper truthful, however the request is answered. -/
theorem truthful_resume {answer : Except DebugError Bool} (h : s.Alternates)
    (hresume : s.resume fuel = some (answer, s')) : s'.Truthful ∧ s.SameCommand s' := by
  simp only [resume] at hresume
  obtain ⟨⟨run, vm⟩, hrun, heq⟩ := Option.map_eq_some_iff.mp hresume
  obtain ⟨-, hrest⟩ := Debuggee.resume_rest hrun
  have hsame : s.SameCommand ((s.setPaused false).withVm vm) :=
    (s.sameCommand_setPaused false).trans ⟨rfl, rfl, rfl, rfl⟩
  have halternates : ((s.setPaused false).withVm vm).Alternates := h.setPaused false
  have hended (hpaused : vm.isPaused = false) :
      ((s.setPaused false).withVm vm).noteFinished.Truthful ∧
        s.SameCommand ((s.setPaused false).withVm vm).noteFinished :=
    ⟨truthful_noteFinished halternates hpaused, hsame.trans (sameCommand_noteFinished _)⟩
  rcases hrest with ⟨rfl, place, hplace⟩ | ⟨hanswer, hpaused⟩
  · cases heq
    have hpaused : vm.isPaused = true := (Debuggee.isPaused_of_haltedAt? hplace).1
    exact ⟨truthful_noteBreak halternates hpaused, hsame.trans (sameCommand_noteBreak _)⟩
  · cases run with
    | error error =>
      cases heq
      rw [noteError_of_not_isPaused (s := (s.setPaused false).withVm vm) hpaused]
      exact hended hpaused
    | ok stop =>
      cases stop with
      | paused => exact absurd rfl hanswer
      | finished value =>
        cases heq
        exact hended hpaused

theorem truthful_runFreely {request : Request} {answer : Except DebugError Unit} (hs : s.Truthful)
    (h : s.runFreely fuel request = some (answer, s')) : s'.Truthful ∧ s.SameCommand s' := by
  cases request with
  | step =>
    cases h
    exact ⟨hs, .refl s⟩
  | proceed =>
    obtain ⟨⟨resumed, t⟩, hresume, heq⟩ := Option.map_eq_some_iff.mp h
    cases heq
    obtain ⟨htruthful, hsame⟩ := truthful_resume (hs.setStepping false).alternates hresume
    exact ⟨htruthful, (s.sameCommand_setStepping false).trans hsame⟩

theorem truthful_serve {request : Request} {answer : Except DebugError Unit} (hs : s.Truthful)
    (h : s.serve fuel request = some (answer, s')) : s'.Truthful ∧ s.SameCommand s' := by
  have hstepping := s.sameCommand_setStepping true
  simp only [Stepper.serve] at h
  split at h
  · split at h
    · cases h
    · rename_i error t hresume
      cases h
      obtain ⟨htruthful, hsame⟩ := truthful_resume (hs.setStepping true).alternates hresume
      exact ⟨htruthful, hstepping.trans hsame⟩
    · rename_i halted t hresume
      obtain ⟨htruthful, hsame⟩ := truthful_resume (hs.setStepping true).alternates hresume
      have hrearmed := htruthful.rearm (s.vm.frameInfo? 0)
      have hsame' := (hstepping.trans hsame).trans (sameCommand_rearm t (s.vm.frameInfo? 0))
      split at h
      · cases h
        exact ⟨hrearmed, hsame'⟩
      · obtain ⟨hfree, hlast⟩ := truthful_runFreely hrearmed h
        exact ⟨hfree, hsame'.trans hlast⟩
  · exact truthful_runFreely hs h

/-! ## Commands -/

theorem Truthful.withPlan (h : s.Truthful) (plan : Option Plan) (state : PlanState) :
    Truthful { s with plan, state } :=
  ⟨h.paused, h.onBreakpoint, h.alternates⟩

/-- What serving a command leaves of a stepper: nothing is passed to the subscribers of `breaks`,
and after it was served to its end the command is over. -/
structure Driven (s : Stepper) (served : Bool) (s' : Stepper) : Prop where
  truthful : s'.Truthful
  breaks : s'.breaks = s.breaks
  subscribers : s'.pauses.subscribers = s.pauses.subscribers
  completed : served = true → s'.plan = none ∧ s'.state = .completed

/-- The end of a command is not passed to the subscribers. -/
theorem complete_of_plan {plan : Plan} (hplan : s.plan = some plan) (frame : Option FrameInfo) :
    s.complete true frame = { s with plan := none, state := .completed } := by
  simp [complete, hplan]

/-- One request of a command, or its end. -/
theorem driven_advance {plan : Plan} {answer : Except DebugError Bool} (hs : s.Truthful)
    (hplan : s.plan = some plan) (h : s.advance true fuel = some (answer, s')) :
    (answer = .ok false ∧ s.Driven true s') ∨
      (answer ≠ .ok false ∧ s.Driven false s' ∧ ∃ plan, s'.plan = some plan) := by
  simp only [advance, hplan] at h
  split at h
  · cases h
    rw [complete_of_plan hplan]
    exact .inl ⟨rfl, hs.withPlan none .completed, rfl, rfl, fun _ => ⟨rfl, rfl⟩⟩
  · rename_i request next hnext
    obtain ⟨⟨served, t⟩, hserve, heq⟩ := Option.map_eq_some_iff.mp h
    obtain ⟨htruthful, hsame⟩ := truthful_serve (hs.withPlan (some next) .active) hserve
    cases heq
    refine .inr ⟨?_, ⟨htruthful, hsame.breaks, hsame.subscribers, ?_⟩, next, hsame.plan⟩
    · cases served <;> simp [Except.map]
    · intro hserved
      cases hserved

/-- Serving a command, by induction on the bound. -/
theorem driven_drive {plan : Plan} {answer : Except DebugError Unit} (hs : s.Truthful)
    (hplan : s.plan = some plan) (h : s.drive true fuel = some (answer, s')) :
    s.Driven answer.isOk s' := by
  induction fuel generalizing s plan with
  | zero => cases h
  | succ fuel ih =>
    rw [drive] at h
    split at h
    · cases h
    · rename_i error t hadvance
      cases h
      obtain ⟨hanswer, -⟩ | ⟨-, hdriven, -⟩ := driven_advance hs hplan hadvance
      · cases hanswer
      · exact hdriven
    · rename_i t hadvance
      cases h
      obtain ⟨-, hdriven⟩ | ⟨hanswer, -⟩ := driven_advance hs hplan hadvance
      · exact hdriven
      · exact absurd rfl hanswer
    · rename_i t hadvance
      obtain ⟨hanswer, -⟩ | ⟨-, hdriven, next, hnext⟩ := driven_advance hs hplan hadvance
      · cases hanswer
      · have hlast := ih hdriven.truthful hnext h
        exact ⟨hlast.truthful, hlast.breaks.trans hdriven.breaks,
          hlast.subscribers.trans hdriven.subscribers, hlast.completed⟩

/-! ## Operations -/

/-- How a stepper stands between two operations. -/
structure InOrder (s : Stepper) : Prop where
  plan : s.plan = none
  state : s.state = .idle ∨ s.state = .completed
  truthful : s.Truthful

/-- A command that is rejected changes nothing; any other one is over when it is answered. -/
theorem inOrder_start {command : Command} {answer : Except DebugError Bool} (hs : s.InOrder)
    (h : s.start fuel command = some (answer, s')) :
    s'.InOrder ∧ s'.breaks = s.breaks ∧ s'.pauses.subscribers = s.pauses.subscribers ∧
      (answer = .ok true ∨ ∃ error, answer = .error error) := by
  rw [start] at h
  split at h
  · obtain ⟨⟨driven, t⟩, hdrive, heq⟩ := Option.map_eq_some_iff.mp h
    have ht := driven_drive (hs.truthful.withPlan (some { command }) .starting) rfl hdrive
    cases driven with
    | ok value =>
      cases heq
      obtain ⟨hplan, hstate⟩ := ht.completed rfl
      refine ⟨⟨hplan, .inr hstate, ht.truthful⟩, ht.breaks, ht.subscribers, .inl ?_⟩
      rw [hplan]
      rfl
    | error error =>
      cases heq
      exact ⟨⟨rfl, .inr rfl, ht.truthful.withPlan none .completed⟩, ht.breaks, ht.subscribers,
        .inr ⟨error, rfl⟩⟩
  · cases h
    exact ⟨hs, rfl, rfl, .inr ⟨_, rfl⟩⟩

/-- Without a command in progress, a halt is passed on with its innermost frame. -/
theorem complete_of_isPaused (hplan : s.plan = none) (hpaused : s.vm.isPaused = true)
    {frame : FrameInfo} (hframe : s.vm.frameInfo? 0 = some frame) :
    s.complete false s.observe.frame = { s with breaks := s.breaks.notify frame } := by
  have hobserved : s.observe.frame = some frame := by
    simp only [observe, hpaused, if_true, hframe]
  simp only [complete, hplan, hobserved, Option.isSome_none, Bool.false_eq_true, if_false]

/-- A call is passed on if it halted, with its innermost frame. -/
theorem inOrder_call {name : String} {args : Array Int32} {answer : Except DebugError Stop}
    (hs : s.InOrder) (h : s.call fuel name args = some (answer, s')) :
    s'.InOrder ∧ s'.pauses.subscribers = s.pauses.subscribers ∧
      ((answer = .ok .paused ∧ ∃ frame, s'.vm.frameInfo? 0 = some frame ∧
          s'.breaks = s.breaks.notify frame) ∨
        (answer ≠ .ok .paused ∧ s'.breaks = s.breaks)) := by
  obtain ⟨run, vm, hcall, hended⟩ := call_eq_some hs.plan h
  have halternates : (s.withVm vm).Alternates := hs.truthful.alternates
  have hkept {t : Stepper} (ht : t.Truthful) (hsame : (s.withVm vm).SameCommand t) : t.InOrder :=
    ⟨hsame.plan.trans hs.plan, hsame.state ▸ hs.state, ht⟩
  -- what is noted of a call that is over, whether it returned or failed
  have hover (hpaused : vm.isPaused = false) :
      (s.withVm vm).noteFinished.InOrder ∧
        (s.withVm vm).noteFinished.pauses.subscribers = s.pauses.subscribers ∧
        (s.withVm vm).noteFinished.breaks = s.breaks :=
    have hsame := sameCommand_noteFinished (s.withVm vm)
    ⟨hkept (truthful_noteFinished halternates hpaused) hsame, hsame.subscribers, hsame.breaks⟩
  obtain ⟨rfl, rfl, rfl⟩ | ⟨value, rfl, rfl, rfl⟩ | ⟨reason, rfl, rfl, rfl⟩ := hended
  · obtain ⟨-, error, herror⟩ | ⟨-, -, ⟨-, place, hplace⟩ | ⟨hanswer, -⟩⟩ :=
      Debuggee.call_rest hcall
    · cases herror
    · have hpaused : (s.withVm vm).vm.isPaused = true := (Debuggee.isPaused_of_haltedAt? hplace).1
      have hsame := sameCommand_noteBreak (s.withVm vm)
      have ht := hkept (truthful_noteBreak halternates hpaused) hsame
      have hcalled := sameCall_noteBreak (s.withVm vm)
      have hframe := Debuggee.frameInfo?_of_haltedAt? (hcalled.haltedAt?.trans hplace)
      rw [complete_of_isPaused ht.plan (hcalled.isPaused.trans hpaused) hframe]
      refine ⟨⟨ht.plan, ht.state, ?_⟩, hsame.subscribers, .inl ⟨rfl, _, hframe, ?_⟩⟩
      · exact ⟨ht.truthful.paused, ht.truthful.onBreakpoint, ht.truthful.alternates⟩
      · rw [hsame.breaks]
        rfl
    · exact absurd rfl hanswer
  · obtain ⟨-, error, herror⟩ | ⟨-, -, ⟨hanswer, -⟩ | ⟨-, hpaused⟩⟩ := Debuggee.call_rest hcall
    · cases herror
    · cases hanswer
    · obtain ⟨hin, hsubscribers, hbreaks⟩ := hover hpaused
      exact ⟨hin, hsubscribers, .inr ⟨by simp, hbreaks⟩⟩
  · cases hpaused : vm.isPaused with
    | false =>
      rw [noteError_of_not_isPaused (s := s.withVm vm) hpaused]
      obtain ⟨hin, hsubscribers, hbreaks⟩ := hover hpaused
      exact ⟨hin, hsubscribers, .inr ⟨by simp, hbreaks⟩⟩
    | true =>
      obtain ⟨rfl, -⟩ | ⟨-, -, ⟨hanswer, -⟩ | ⟨-, hidle⟩⟩ := Debuggee.call_rest hcall
      · rw [withVm_self, noteError, if_pos hpaused]
        exact ⟨hs, rfl, .inr ⟨by simp, rfl⟩⟩
      · cases hanswer
      · rw [hpaused] at hidle
        cases hidle

/-- Loading drops the call, and the subscribers hear that it is not halted. -/
theorem inOrder_load (hs : s.InOrder) (program : Program) :
    (s.load program).InOrder ∧ (s.load program).breaks = s.breaks ∧
      (s.load program).pauses.subscribers = s.pauses.subscribers := by
  have hsame := sameCommand_setPaused { s with
    debugger := (s.debugger.load program).2, plan := none, onBreakpoint := false } false
  have hidle : (s.load program).vm.isPaused = false := by
    rw [load, vm_setPaused]
    exact (s.debugger.sameCall_load program).isPaused
  refine ⟨⟨hsame.plan, hsame.state ▸ hs.state, ?_⟩, hsame.breaks, hsame.subscribers⟩
  refine ⟨(paused_setPaused _ false).trans hidle.symm, ?_, ?_⟩
  · rw [load, onBreakpoint_setPaused]
    intro hnote
    cases hnote
  · have hloaded : Alternates { s with
        debugger := (s.debugger.load program).2, plan := none, onBreakpoint := false } :=
      hs.truthful.alternates
    exact hloaded.setPaused false

/-- A change of the debugger that leaves the call alone is not noticed by the subscribers. -/
theorem InOrder.withDebugger {d : Debugger} (hs : s.InOrder) (hsame : SameCall s.vm d.vm) :
    InOrder { s with debugger := d } :=
  ⟨hs.plan, hs.state, hs.truthful.withDebugger hsame⟩

/-- What an operation of a stepper answers and what it tells the subscribers of `breaks`. A command
is over when it is answered. A call that halted is passed on with its innermost frame, and nothing
else is. -/
structure Reports (s : Stepper) (operation : StepperOperation) (reply : Reply) (s' : Stepper) :
    Prop where
  command : ∀ command, operation = .start command →
    reply = .flag true ∨ ∃ error, reply = .failed error
  breaks : (reply = .stopped .paused ∧ ∃ name args frame, operation = .call name args ∧
      s'.vm.frameInfo? 0 = some frame ∧ s'.breaks = s.breaks.notify frame) ∨
    (reply ≠ .stopped .paused ∧ s'.breaks = s.breaks)

/-- An operation that is neither a command nor a call reports nothing. -/
theorem Reports.quiet {operation : StepperOperation} {reply : Reply}
    (hcommand : ∀ command, operation ≠ .start command) (hreply : reply ≠ .stopped .paused)
    (hbreaks : s'.breaks = s.breaks) : s.Reports operation reply s' := by
  refine ⟨?_, .inr ⟨hreply, hbreaks⟩⟩
  intro command hstart
  exact absurd hstart (hcommand command)

/-- Every operation leaves a stepper in order. -/
theorem InOrder.perform {operation : StepperOperation} {reply : Reply} (hs : s.InOrder)
    (h : s.perform fuel operation = some (reply, s')) :
    s'.InOrder ∧ s'.pauses.subscribers = s.pauses.subscribers ∧ s.Reports operation reply s' := by
  cases operation with
  | load program =>
    cases h
    obtain ⟨hin, hbreaks, hsubscribers⟩ := inOrder_load hs program
    exact ⟨hin, hsubscribers, .quiet (by simp) (by simp) hbreaks⟩
  | set place =>
    cases h
    exact ⟨hs.withDebugger (s.debugger.sameCall_set place), rfl, .quiet (by simp) (by simp) rfl⟩
  | remove place =>
    cases h
    exact ⟨hs.withDebugger (s.debugger.sameCall_remove place), rfl, .quiet (by simp) (by simp) rfl⟩
  | pause =>
    cases h
    exact ⟨hs.withDebugger (s.vm.sameCall_setStepping true), rfl, .quiet (by simp) (by simp) rfl⟩
  | call name args =>
    obtain ⟨⟨answer, t⟩, hcall, heq⟩ := Option.map_eq_some_iff.mp h
    cases heq
    obtain ⟨hin, hsubscribers, hbreaks⟩ := inOrder_call hs hcall
    refine ⟨hin, hsubscribers, by simp, ?_⟩
    rcases hbreaks with ⟨rfl, frame, hframe, hbreaks⟩ | ⟨hanswer, hbreaks⟩
    · exact .inl ⟨rfl, name, args, frame, rfl, hframe, hbreaks⟩
    · refine .inr ⟨?_, hbreaks⟩
      cases answer with
      | error error => simp [Reply.ofDebug]
      | ok stop => simpa [Reply.ofDebug] using hanswer
  | start command =>
    obtain ⟨⟨answer, t⟩, hstart, heq⟩ := Option.map_eq_some_iff.mp h
    cases heq
    obtain ⟨hin, hbreaks, hsubscribers, hanswer⟩ := inOrder_start hs hstart
    refine ⟨hin, hsubscribers, ?_, .inr ⟨?_, hbreaks⟩⟩
    · intro _ _
      rcases hanswer with rfl | ⟨error, rfl⟩
      · exact .inl rfl
      · exact .inr ⟨error, rfl⟩
    · rcases hanswer with rfl | ⟨error, rfl⟩ <;> simp [Reply.ofDebug]

theorem IsNew.inOrder (h : s.IsNew) (hlog : s.pauses.log = #[]) : s.InOrder := by
  have hidle : s.vm.isPaused = false := by
    rw [vm, h.debugger.vm]
    rfl
  refine ⟨h.plan, .inl h.state, h.paused.trans hidle.symm, ?_, ?_⟩
  · rw [h.onBreakpoint]
    intro hnote
    cases hnote
  · intro i _
    have hheard : s.pauses.heard i = [] := by
      rw [Channel.heard, hlog]
      rfl
    rw [hheard, h.paused]
    exact ⟨List.isChain_singleton false, rfl⟩

end Stepper

/-! ## Sessions -/

/-- The operations of a stepper, on programs of any kind. -/
def Operation.IsForStepper : Operation → Prop
  | .stepper _ => True
  | _ => False

/-- After every operation of every session of a new stepper, no command is in progress, and what the
subscribers of `pauses` heard is an alternation that ends with how the debuggee is. Every further
operation reports to the subscribers of `breaks` the call that it halted, and nothing else. -/
theorem Host.Session.stepper_protocol {s₀ : Stepper} {failed : Bool} {host : Host} (hnew : s₀.IsNew)
    (hlog : s₀.pauses.log = #[])
    (hsession : Session Operation.IsForStepper (.stepper s₀) failed host) :
    ∃ s, host = .stepper s ∧ s.InOrder ∧ s.pauses.subscribers = s₀.pauses.subscribers ∧
      ∀ fuel operation reply s', s.perform fuel operation = some (reply, s') →
        s.Reports operation reply s' := by
  have hkept : ∃ s, host = .stepper s ∧ s.InOrder ∧
      s.pauses.subscribers = s₀.pauses.subscribers := by
    induction hsession with
    | new => exact ⟨s₀, rfl, hnew.inOrder hlog, rfl⟩
    | @perform failed host host' fuel operation reply before hpermitted h ih =>
      obtain ⟨s, rfl, hs, hsubscribers⟩ := ih
      cases operation with
      | vm operation => exact hpermitted.elim
      | debugger operation => exact hpermitted.elim
      | wrap => exact hpermitted.elim
      | unwrap => exact hpermitted.elim
      | stepper operation =>
        obtain ⟨⟨reply, s'⟩, hperform, heq⟩ := Option.map_eq_some_iff.mp h
        cases heq
        obtain ⟨hs', hkept, -⟩ := hs.perform hperform
        exact ⟨s', rfl, hs', hkept.trans hsubscribers⟩
  obtain ⟨s, hhost, hs, hsubscribers⟩ := hkept
  refine ⟨s, hhost, hs, hsubscribers, ?_⟩
  intro fuel operation reply s' hperform
  exact (hs.perform hperform).2.2

/-- A stepper with a subscriber on each channel, halted on the addition of a sum. -/
def Stepper.watchedAddition : Stepper :=
  match (((Host.watchedStepper {}).load .sum).set ⟨0, 2⟩).call 9 "sum" #[] with
  | some (_, s) => s
  | none => .ofDebugger {}

/-- The halt of the call was passed on, and the subscriber of `pauses` knows of it. When the call is
resumed and returns, the subscriber of `pauses` hears that, and that of `breaks` nothing. -/
theorem Host.Session.stepper_protocol_sum :
    Stepper.watchedAddition.InOrder ∧
      Stepper.watchedAddition.pauses.heard 0 = [true] ∧
      Stepper.watchedAddition.breaks.heard 0 = [⟨⟨0⟩, 0, 2⟩] ∧
      (Stepper.watchedAddition.perform 9 (.start .proceed)).map (fun (reply, s) =>
          (reply, s.pauses.heard 0, s.breaks.heard 0)) =
        some (.flag true, [true, false, true, false], [⟨⟨0⟩, 0, 2⟩]) := by
  have hnew : (watchedStepper {}).IsNew := ⟨⟨rfl, rfl, rfl⟩, rfl, rfl, rfl, rfl⟩
  have hloaded : Session Operation.IsForStepper (.stepper (watchedStepper {})) false
      (.stepper ((watchedStepper {}).load .sum)) :=
    .perform .new (by exact trivial)
      (show Host.perform 0 _ (.stepper (.load .sum)) = some _ from rfl)
  have hset := hloaded.perform (by exact trivial)
    (show Host.perform 0 _ (.stepper (.set ⟨0, 2⟩)) = some _ from rfl)
  have hcalled := hset.perform (by exact trivial)
    (show Host.perform 9 _ (.stepper (.call "sum" #[])) =
      some (.stopped .paused, .stepper .watchedAddition) from rfl)
  obtain ⟨s, hhost, hs, -⟩ := stepper_protocol hnew rfl hcalled
  cases hhost
  exact ⟨hs, by decide +kernel, by decide +kernel, by decide +kernel⟩

end BytecodeDebugger
