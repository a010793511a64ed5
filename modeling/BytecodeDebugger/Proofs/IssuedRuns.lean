import BytecodeDebugger.Proofs.ElementaryRequests

/-!
# The run requests behind a command

A command of a debugger is rejected and changes nothing, or it issues run requests, at least one,
and its answer is that of the last of them. Before, between and after them the debugger patches and
restores instructions and switches stepping mode. A command of a stepper does the same; so every
operation of every level changes the debuggee by elementary requests only.

## Implementation notes

`Debugger.Ran` says nothing of the subscribers but that they were not told of activity yet: the
commands are reported when they are over, and `told` is what a report adds.
-/

namespace BytecodeDebugger

/-- What a reply states of the last run request of an operation, which left the debuggee so. -/
inductive Reply.States (vm : Debuggee) : Reply → Except RunError Stop → Prop
  | stopped (stop : Stop) : States vm (.stopped stop) (.ok stop)
  | paused {frame : FrameInfo} (onBreakpoint : Bool) (hframe : vm.frameInfo? 0 = some frame) :
      States vm (.stepped (.paused frame onBreakpoint)) (.ok .paused)
  | finished (value : Int32) : States vm (.stepped (.finished value)) (.ok (.finished value))
  | flag (completed : Bool) (stop : Stop) : States vm (.flag completed) (.ok stop)
  | runFailed (error : RunError) : States vm (.runFailed error) (.error error)
  | failed (error : RunError) : States vm (.failed (.run error)) (.error error)

theorem Debuggee.SameCall.frameInfo? {vm vm' : Debuggee} (h : SameCall vm vm') (depth : Nat) :
    vm'.frameInfo? depth = vm.frameInfo? depth := by
  rw [Debuggee.frameInfo?, h.machine, h.programId, Debuggee.frameInfo?]

theorem Reply.States.of_sameCall {vm vm' : Debuggee} {reply : Reply}
    {answer : Except RunError Stop} (hsame : Debuggee.SameCall vm vm')
    (h : reply.States vm answer) : reply.States vm' answer := by
  cases h with
  | stopped stop => exact .stopped stop
  | paused onBreakpoint hframe => exact .paused onBreakpoint ((hsame.frameInfo? 0).trans hframe)
  | finished value => exact .finished value
  | flag completed stop => exact .flag completed stop
  | runFailed error => exact .runFailed error
  | failed error => exact .failed error

namespace Debugger

open Debuggee (Serves)

variable {d d' e : Debugger} {fuel : Nat} {answer : Except DebugError StepOutcome}

/-! ## Requests that run nothing -/

/-- What a debugger does between two run requests: the subscribers are not told of activity. -/
structure Touched (d d' : Debugger) : Prop where
  vm : d.vm.Serves [] d'.vm
  activity : d'.activity = d.activity

namespace Touched

theorem refl (d : Debugger) : d.Touched d :=
  ⟨.refl, rfl⟩

theorem trans (h : d.Touched e) (h' : e.Touched d') : d.Touched d' :=
  ⟨h.vm.trans h'.vm, h'.activity.trans h.activity⟩

end Touched

theorem touched_setStepping (d : Debugger) (on : Bool) : d.Touched (d.setStepping on) :=
  ⟨.touch .refl (.setStepping d.vm on), rfl⟩

theorem touched_patch (d : Debugger) (place : Location) : d.Touched (d.patch place).2 :=
  ⟨.touch .refl (.patch d.vm place), rfl⟩

theorem touched_restore (d : Debugger) (place : Location) : d.Touched (d.restore place).2 :=
  ⟨.touch .refl (.restore d.vm place), rfl⟩

theorem touched_restoreFrame (d : Debugger) (frame : FrameInfo) :
    d.Touched (d.restoreFrame frame).2 := by
  rw [restoreFrame]
  split
  · exact d.touched_restore frame.location
  · exact .refl d

theorem touched_rearm (d : Debugger) (frame : FrameInfo) : d.Touched (d.rearm frame) := by
  rw [rearm]
  split
  · exact d.touched_patch frame.location
  · exact .refl d

theorem touched_rearmAll (d : Debugger) : d.Touched d.rearmAll := by
  rw [rearmAll]
  exact List.foldlRecOn (motive := d.Touched) _ _ (.refl d)
    fun e he place _ => he.trans (e.touched_patch place)

theorem touched_set (d : Debugger) (place : Location) : d.Touched (d.set place) :=
  ⟨.touch .refl (.patch d.vm place), rfl⟩

theorem touched_remove (d : Debugger) (place : Location) : d.Touched (d.remove place) :=
  ⟨.touch .refl (.restore d.vm place), rfl⟩

theorem touched_setLine (d : Debugger) (line : SourceLine) : d.Touched (d.setLine line).2 :=
  setLine_induction (P := d.Touched) line (fun _ => ⟨.refl, rfl⟩)
    fun e place he => he.trans (e.touched_set place)

theorem touched_removeLine (d : Debugger) (line : SourceLine) : d.Touched (d.removeLine line) :=
  removeLine_induction (P := d.Touched) line (fun _ => ⟨.refl, rfl⟩)
    fun e place he => he.trans (e.touched_remove place)

/-- A quiet operation runs nothing, and the subscribers are not told of activity. -/
theorem touched_perform {operation : DebuggerOperation} {reply : Reply}
    (hquiet : (Operation.debugger operation).isQuiet = true)
    (h : d.perform fuel operation = some (reply, d')) : d.Touched d' := by
  cases operation with
  | load program => cases hquiet
  | call name args => cases hquiet
  | stepInto => cases hquiet
  | stepNext => cases hquiet
  | proceed => cases hquiet
  | set place =>
    cases h
    exact d.touched_set place
  | remove place =>
    cases h
    exact d.touched_remove place
  | setLine line =>
    cases h
    exact d.touched_setLine line
  | removeLine line =>
    cases h
    exact d.touched_removeLine line
  | patch place =>
    cases h
    exact d.touched_patch place
  | restoreFrame frame =>
    cases h
    exact d.touched_restoreFrame frame
  | rearm frame =>
    cases h
    exact d.touched_rearm frame
  | rearmAll =>
    cases h
    exact d.touched_rearmAll
  | pause =>
    cases h
    exact d.touched_setStepping true

/-! ## Stepping commands -/

/-- What a command that is not rejected does before it is reported: it runs the halted call, by run
requests, and is answered by the last of them. -/
structure Ran (d : Debugger) (answer : Except DebugError StepOutcome) (d' : Debugger) : Prop where
  paused : d.vm.isPaused = true
  vm : ∃ last, d.vm.Ran last d'.vm ∧ (Reply.ofDebug .stepped answer).States d'.vm last
  activity : d'.activity = d.activity

namespace Ran

theorem after (h : e.Ran answer d') (hbefore : d.Touched e) : d.Ran answer d' := by
  obtain ⟨last, hran, hstates⟩ := h.vm
  exact ⟨hbefore.vm.sameCall_of_nil.isPaused.symm.trans h.paused,
    ⟨last, hran.after hbefore.vm, hstates⟩, h.activity.trans hbefore.activity⟩

theorem before (h : d.Ran answer e) (hafter : e.Touched d') : d.Ran answer d' := by
  obtain ⟨last, hran, hstates⟩ := h.vm
  have hsame : Debuggee.SameCall e.vm d'.vm := hafter.vm.sameCall_of_nil
  exact ⟨h.paused, ⟨last, hran.before hafter.vm, hstates.of_sameCall hsame⟩,
    hafter.activity.trans h.activity⟩

theorem trans {first : Except DebugError StepOutcome} (h : d.Ran first e) (h' : e.Ran answer d') :
    d.Ran answer d' := by
  obtain ⟨_, ⟨runs, _, hserves, -⟩, -⟩ := h.vm
  obtain ⟨last, hran, hstates⟩ := h'.vm
  exact ⟨h.paused, ⟨last, hran.after hserves, hstates⟩, h'.activity.trans h.activity⟩

/-- A command that is answered by a halt leaves the call halted there. -/
theorem pausedFrame? {frame : FrameInfo} {onBreakpoint : Bool}
    (h : d.Ran (.ok (.paused frame onBreakpoint)) d') : d'.pausedFrame? = some frame := by
  obtain ⟨last, hran, hstates⟩ := h.vm
  cases hstates with
  | paused _ hframe =>
    obtain ⟨-, place, hplace⟩ | ⟨hanswer, -⟩ := hran.rest
    · rw [Debugger.pausedFrame?, (Debuggee.isPaused_of_haltedAt? hplace).1]
      exact hframe
    · exact absurd rfl hanswer

end Ran

theorem isPaused_of_pausedFrame? {origin : FrameInfo} (h : d.pausedFrame? = some origin) :
    d.vm.isPaused = true := by
  rw [pausedFrame?] at h
  split at h
  · assumption
  · cases h

theorem ran_resume (hpaused : d.vm.isPaused = true) (h : d.resume fuel = some (answer, d')) :
    d.Ran answer d' := by
  obtain ⟨⟨run, vm⟩, hrun, heq⟩ := Option.map_eq_some_iff.mp h
  have hran := Debuggee.ran_resume hpaused hrun
  match run with
  | .error error =>
    cases heq
    exact ⟨hpaused, ⟨_, hran, .failed error⟩, rfl⟩
  | .ok (.finished value) =>
    cases heq
    exact ⟨hpaused, ⟨_, hran, .finished value⟩, rfl⟩
  | .ok .paused =>
    obtain ⟨-, place, hplace⟩ | ⟨hanswer, -⟩ := hran.rest
    · have hframe := Debuggee.frameInfo?_of_haltedAt? hplace
      let frame : FrameInfo := ⟨vm.programId, place.function, place.address⟩
      have hhalted (onBreakpoint : Bool) :
          d.Ran (.ok (.paused frame onBreakpoint)) { d with vm } :=
        ⟨hpaused, ⟨_, hran, .paused onBreakpoint hframe⟩, rfl⟩
      simp only [hframe] at heq
      cases heq
      exact (hhalted _).before (touched_restoreFrame _ _)
    · exact absurd rfl hanswer

theorem ran_stepInstruction {origin : FrameInfo} (horigin : d.pausedFrame? = some origin)
    (h : d.stepInstruction fuel = some (answer, d')) : d.Ran answer d' := by
  simp only [stepInstruction, horigin] at h
  obtain ⟨⟨resumed, e⟩, hresume, heq⟩ := Option.map_eq_some_iff.mp h
  have hready := (d.touched_restoreFrame origin).trans (touched_setStepping _ true)
  have hpaused : ((d.restoreFrame origin).2.setStepping true).vm.isPaused = true :=
    hready.vm.sameCall_of_nil.isPaused.trans (isPaused_of_pausedFrame? horigin)
  have hran := (ran_resume hpaused hresume).after hready
  cases resumed with
  | error error =>
    cases heq
    exact hran
  | ok outcome =>
    cases heq
    exact hran.before (e.touched_rearm origin)

/-- A call that is not over after a step is halted. -/
theorem Ran.pausedFrame?_of_not_isStopPoint {outcome : StepOutcome} (h : d.Ran (.ok outcome) d')
    (hgo : d'.isStopPoint outcome ≠ true) : ∃ frame, d'.pausedFrame? = some frame := by
  cases outcome with
  | paused frame onBreakpoint => exact ⟨frame, h.pausedFrame?⟩
  | finished value => exact absurd rfl hgo

/-- Stepping to a stop point, by induction on the bound. -/
theorem ran_stepToStopPoint {origin : FrameInfo} (horigin : d.pausedFrame? = some origin)
    (h : d.stepToStopPoint fuel = some (answer, d')) : d.Ran answer d' := by
  induction fuel generalizing d origin with
  | zero => cases h
  | succ fuel ih =>
    rw [stepToStopPoint] at h
    split at h
    · cases h
    · rename_i error e hone
      cases h
      exact ran_stepInstruction horigin hone
    · rename_i outcome e hone
      have hran := ran_stepInstruction horigin hone
      split at h
      · cases h
        exact hran
      · rename_i hgo
        obtain ⟨frame, hframe⟩ := hran.pausedFrame?_of_not_isStopPoint hgo
        exact hran.trans (ih hframe h)

/-- Running over a call after the step into it. -/
theorem Ran.runOverCall {origin frame : FrameInfo} {onBreakpoint : Bool}
    (hstepped : d.Ran (.ok (.paused frame onBreakpoint)) e)
    (h : e.runOverCall fuel origin (.paused frame onBreakpoint) = some (answer, d')) :
    d.Ran answer d' := by
  cases htarget : e.overTarget? origin with
  | none =>
    rw [Debugger.runOverCall, htarget] at h
    cases h
    exact hstepped
  | some target =>
    rw [runOverCall_eq _ _ htarget] at h
    obtain ⟨⟨resumed, f⟩, hresume, heq⟩ := Option.map_eq_some_iff.mp h
    have hready := (e.touched_rearmAll.trans (touched_patch _ target)).trans
      (touched_setStepping _ false)
    have hpaused : ((e.rearmAll.patch target).2.setStepping false).vm.isPaused = true :=
      hready.vm.sameCall_of_nil.isPaused.trans (isPaused_of_pausedFrame? hstepped.pausedFrame?)
    have hran := hstepped.trans ((ran_resume hpaused hresume).after hready)
    cases heq
    split
    · exact hran.before (f.touched_restore target)
    · exact hran

/-! ## Reported commands -/

/-- A debugger after it told the subscribers of an answer. -/
def told (d : Debugger) : Except DebugError StepOutcome → Debugger
  | .ok outcome => d.report outcome
  | .error _ => d

theorem vm_told (d : Debugger) (answer : Except DebugError StepOutcome) :
    (d.told answer).vm = d.vm := by
  match answer with
  | .ok (.paused frame onBreakpoint) => rfl
  | .ok (.finished value) => rfl
  | .error error => rfl

theorem reported_eq_some {command : Answer StepOutcome}
    (h : reported command = some (answer, d')) :
    ∃ e, command = some (answer, e) ∧ d' = e.told answer := by
  obtain ⟨⟨answer, e⟩, rfl, heq⟩ := Option.map_eq_some_iff.mp h
  refine ⟨e, ?_⟩
  cases answer <;> cases heq <;> exact ⟨rfl, rfl⟩

/-- What a stepping command does: without a halted call it is rejected and changes nothing, and
otherwise it runs the call and reports how the last run request ended. -/
inductive Commanded (d : Debugger) : Except DebugError StepOutcome → Debugger → Prop
  | rejected (command : Command) (hidle : d.pausedFrame? = none) :
      Commanded d (.error (.notPaused command)) d
  | served {answer : Except DebugError StepOutcome} {e : Debugger} (h : d.Ran answer e) :
      Commanded d answer (e.told answer)

theorem commanded_stepInto (h : d.stepInto fuel = some (answer, d')) : d.Commanded answer d' := by
  obtain ⟨e, hcommand, rfl⟩ := reported_eq_some h
  cases horigin : d.pausedFrame? with
  | some origin => exact .served (ran_stepToStopPoint horigin hcommand)
  | none =>
    cases fuel with
    | zero => cases hcommand
    | succ fuel =>
      simp only [stepToStopPoint, stepInstruction, horigin] at hcommand
      cases hcommand
      exact .rejected .single horigin

theorem commanded_stepNext (h : d.stepNext fuel = some (answer, d')) : d.Commanded answer d' := by
  cases horigin : d.pausedFrame? with
  | none =>
    simp only [stepNext, horigin] at h
    cases h
    exact .rejected .over horigin
  | some origin =>
    simp only [stepNext, horigin] at h
    split at h
    · cases h
    · rename_i error e hone
      cases h
      exact .served (ran_stepInstruction horigin hone)
    · rename_i outcome e hone
      have hran := ran_stepInstruction horigin hone
      obtain ⟨f, hcommand, rfl⟩ := reported_eq_some h
      apply Commanded.served
      split at hcommand
      · exact hran.runOverCall hcommand
      · split at hcommand
        · cases hcommand
          exact hran
        · rename_i hgo
          obtain ⟨frame, hframe⟩ := hran.pausedFrame?_of_not_isStopPoint hgo
          exact hran.trans (ran_stepToStopPoint hframe hcommand)

theorem commanded_proceed (h : d.proceed fuel = some (answer, d')) : d.Commanded answer d' := by
  cases horigin : d.pausedFrame? with
  | none =>
    simp only [proceed, stepInstruction, horigin] at h
    cases h
    exact .rejected .single horigin
  | some origin =>
    rw [proceed] at h
    split at h
    · cases h
    · rename_i error e hone
      cases h
      exact .served (ran_stepInstruction horigin hone)
    · rename_i outcome e hone
      have hran := ran_stepInstruction horigin hone
      obtain ⟨f, hcommand, rfl⟩ := reported_eq_some h
      apply Commanded.served
      split at hcommand
      · have hready := e.touched_rearmAll.trans (touched_setStepping _ false)
        have hpaused : (e.rearmAll.setStepping false).vm.isPaused = true :=
          hready.vm.sameCall_of_nil.isPaused.trans (isPaused_of_pausedFrame? hran.pausedFrame?)
        exact hran.trans ((ran_resume hpaused hcommand).after hready)
      · cases hcommand
        exact hran

/-- The commands of a debugger, as one. -/
theorem commanded_perform {operation : DebuggerOperation} {reply : Reply}
    (hmoves : (Operation.debugger operation).movesOn = true)
    (h : d.perform fuel operation = some (reply, d')) :
    ∃ answer, reply = Reply.ofDebug .stepped answer ∧ d.Commanded answer d' := by
  obtain rfl | rfl | rfl := Operation.cases_of_movesOn hmoves
  · obtain ⟨⟨answer, e⟩, hcommand, heq⟩ := Option.map_eq_some_iff.mp h
    cases heq
    exact ⟨answer, rfl, commanded_stepInto hcommand⟩
  · obtain ⟨⟨answer, e⟩, hcommand, heq⟩ := Option.map_eq_some_iff.mp h
    cases heq
    exact ⟨answer, rfl, commanded_stepNext hcommand⟩
  · obtain ⟨⟨answer, e⟩, hcommand, heq⟩ := Option.map_eq_some_iff.mp h
    cases heq
    exact ⟨answer, rfl, commanded_proceed hcommand⟩

theorem Commanded.serves (h : d.Commanded answer d') : ∃ runs, d.vm.Serves runs d'.vm := by
  cases h with
  | rejected command hidle => exact ⟨[], .refl⟩
  | served hran =>
    obtain ⟨last, ⟨runs, run, hserves, -⟩, -⟩ := hran.vm
    rw [vm_told]
    exact ⟨_, hserves⟩

/-! ## Calls -/

/-- A call is served by the debuggee. The subscribers hear that it started, and unless it is halted,
that it is over. -/
theorem call_eq_some {name : String} {args : Array Int32} {answer : Except DebugError Stop}
    (h : d.call fuel name args = some (answer, d')) :
    ∃ run, d.vm.call fuel name args = some (run, d'.vm) ∧
      ((run = .ok .paused ∧ answer = .ok .paused ∧ d'.activity = d.activity.notify true) ∨
        (∃ value, run = .ok (.finished value) ∧ answer = .ok (.finished value) ∧
          d'.activity = (d.activity.notify true).notify false) ∨
        ∃ error, run = .error error ∧ answer = .error (.run error) ∧
          d' = { d with vm := d'.vm, activity := (d.activity.notify true).notify false }) := by
  obtain ⟨⟨run, vm⟩, hcall, heq⟩ := Option.map_eq_some_iff.mp h
  match run with
  | .ok .paused =>
    simp only at heq
    split at heq <;> cases heq <;> exact ⟨_, hcall, .inl ⟨rfl, rfl, rfl⟩⟩
  | .ok (.finished value) =>
    cases heq
    exact ⟨_, hcall, .inr (.inl ⟨value, rfl, rfl, rfl⟩)⟩
  | .error error =>
    cases heq
    exact ⟨_, hcall, .inr (.inr ⟨error, rfl, rfl, rfl⟩)⟩

/-- Without loading a program, a debugger changes the debuggee by run requests and by what is done
between them. -/
theorem serves_perform {operation : DebuggerOperation} {reply : Reply}
    (hloads : (Operation.debugger operation).loads = false)
    (h : d.perform fuel operation = some (reply, d')) : ∃ runs, d.vm.Serves runs d'.vm := by
  cases hmoves : (Operation.debugger operation).movesOn with
  | true =>
    obtain ⟨answer, -, hcommanded⟩ := commanded_perform hmoves h
    exact hcommanded.serves
  | false =>
    cases hstarts : (Operation.debugger operation).startsOver with
    | false =>
      have hquiet : (Operation.debugger operation).isQuiet = true := by
        rw [Operation.isQuiet, hstarts, hmoves]
        rfl
      exact ⟨[], (touched_perform hquiet h).vm⟩
    | true =>
      cases operation <;> cases hstarts
      · cases hloads
      · obtain ⟨⟨answer, e⟩, hcall, heq⟩ := Option.map_eq_some_iff.mp h
        cases heq
        obtain ⟨run, hrun, -⟩ := call_eq_some hcall
        exact Debuggee.serves_call hrun

theorem leads_load (d : Debugger) (program : Program) : d.vm.Leads (d.load program).2.vm := by
  let relocated := d.lineBreakpoints.keys.foldl relocate { d with vm := (d.vm.load program).2 }
  have hvm : relocated.vm = (d.vm.load program).2 := vm_foldl_relocate _ _
  have hloaded : d.vm.Leads relocated.vm := by
    rw [hvm]
    exact (Debuggee.Leads.refl d.vm).tail (.load d.vm program)
  exact Relation.ReflTransGen.trans hloaded relocated.touched_rearmAll.vm.leads

theorem leads_perform {operation : DebuggerOperation} {reply : Reply}
    (h : d.perform fuel operation = some (reply, d')) : d.vm.Leads d'.vm := by
  cases hloads : (Operation.debugger operation).loads with
  | false =>
    obtain ⟨runs, hserves⟩ := serves_perform hloads h
    exact hserves.leads
  | true =>
    cases operation <;> cases hloads
    cases h
    exact d.leads_load _

end Debugger

namespace Stepper

open Debuggee (Serves)

variable {vm : Debuggee} {s s' : Stepper} {fuel : Nat}

theorem serves_noteBreak (s : Stepper) : s.vm.Serves [] s.noteBreak.vm := by
  cases hframe : s.vm.frameInfo? 0 with
  | none =>
    simp only [noteBreak, vm_setPaused, hframe]
    exact .refl
  | some frame =>
    obtain ⟨-, -, on, hdebugger⟩ := noteBreak_eq hframe
    have hnoted : s.noteBreak.vm = ((s.debugger.restoreFrame frame).2.setStepping on).vm :=
      congrArg Debugger.vm hdebugger
    rw [hnoted]
    exact ((s.debugger.touched_restoreFrame frame).trans (Debugger.touched_setStepping _ on)).vm

/-- What a stepper takes note of after a run request does not run anything. -/
theorem resume_eq_some {answer : Except DebugError Bool} (h : s.resume fuel = some (answer, s')) :
    ∃ run vm, s.vm.resume fuel = some (run, vm) ∧ vm.Serves [] s'.vm ∧
      ((run = .ok .paused ∧ answer = .ok true) ∨
        (∃ value, run = .ok (.finished value) ∧ answer = .ok false) ∨
        ∃ error, run = .error error ∧ answer = .error (.run error)) := by
  simp only [resume, vm_setPaused] at h
  obtain ⟨⟨run, vm⟩, hrun, heq⟩ := Option.map_eq_some_iff.mp h
  refine ⟨run, vm, hrun, ?_⟩
  cases run with
  | ok stop =>
    cases stop with
    | paused =>
      cases heq
      exact ⟨serves_noteBreak ((s.setPaused false).withVm vm), .inl ⟨rfl, rfl⟩⟩
    | finished value =>
      cases heq
      rw [vm_noteFinished]
      exact ⟨.refl, .inr (.inl ⟨value, rfl, rfl⟩)⟩
  | error error =>
    cases heq
    rw [vm_noteError]
    exact ⟨.refl, .inr (.inr ⟨error, rfl, rfl⟩)⟩

theorem preserved_serves (vm : Debuggee) : Preserved fun d => ∃ runs, vm.Serves runs d.vm where
  resume := by
    rintro s s' fuel answer ⟨runs, h⟩ hresume
    obtain ⟨run, vm₁, hrun, hnoted, -⟩ := resume_eq_some hresume
    obtain ⟨runs', hserves⟩ := Debuggee.serves_resume hrun
    exact ⟨_, (h.trans hserves).trans hnoted⟩
  call := by
    rintro d fuel name args answer vm₁ ⟨runs, h⟩ hcall
    obtain ⟨runs', hserves⟩ := Debuggee.serves_call hcall
    exact ⟨_, h.trans hserves⟩
  restoreFrame := by
    rintro d frame ⟨runs, h⟩
    exact ⟨_, h.trans (d.touched_restoreFrame frame).vm⟩
  rearm := by
    rintro d frame ⟨runs, h⟩
    exact ⟨_, h.trans (d.touched_rearm frame).vm⟩
  setStepping := by
    rintro d on ⟨runs, h⟩
    exact ⟨_, h.trans (d.touched_setStepping on).vm⟩

/-- Without loading a program, a stepper changes the debuggee by run requests and by what is done
between them. -/
theorem serves_perform {operation : StepperOperation} {reply : Reply}
    (hloads : (Operation.stepper operation).loads = false)
    (h : s.perform fuel operation = some (reply, s')) : ∃ runs, s.vm.Serves runs s'.vm := by
  cases operation with
  | load program => cases hloads
  | set place =>
    cases h
    exact ⟨[], (s.debugger.touched_set place).vm⟩
  | remove place =>
    cases h
    exact ⟨[], (s.debugger.touched_remove place).vm⟩
  | call name args =>
    obtain ⟨⟨answer, t⟩, hcall, heq⟩ := Option.map_eq_some_iff.mp h
    cases heq
    exact (preserved_serves s.vm).ofCall ⟨[], .refl⟩ hcall
  | start command =>
    obtain ⟨⟨answer, t⟩, hstart, heq⟩ := Option.map_eq_some_iff.mp h
    cases heq
    exact (preserved_serves s.vm).start ⟨[], .refl⟩ hstart
  | pause =>
    cases h
    exact ⟨[], (s.debugger.touched_setStepping true).vm⟩

theorem leads_perform {operation : StepperOperation} {reply : Reply}
    (h : s.perform fuel operation = some (reply, s')) : s.vm.Leads s'.vm := by
  cases hloads : (Operation.stepper operation).loads with
  | false =>
    obtain ⟨runs, hserves⟩ := serves_perform hloads h
    exact hserves.leads
  | true =>
    cases operation <;> cases hloads
    cases h
    rw [load, vm_setPaused]
    exact s.debugger.leads_load _

end Stepper

namespace Host

open Debuggee (Leads)

/-- Every operation of every level changes the debuggee by elementary requests only. -/
theorem leads_perform {host host' : Host} {fuel : Nat} {operation : Operation} {reply : Reply}
    (h : host.perform fuel operation = some (reply, host')) : Leads host.vm host'.vm := by
  cases performed_of_perform h with
  | vm hperform =>
    rw [vm_withVm]
    exact Debuggee.leads_perform hperform
  | debugger hperform => exact Debugger.leads_perform hperform
  | within hperform => exact Debugger.leads_perform hperform
  | stepper hperform => exact Stepper.leads_perform hperform
  | wrap =>
    rw [vm_wrap]
    exact .refl host.vm
  | unwrap d => exact .refl d.vm
  | unavailable => exact .refl host.vm

/-- A session changes the debuggee by elementary requests only. -/
theorem Session.leads {permitted : Operation → Prop} {start host : Host} {failed : Bool}
    (h : Session permitted start failed host) : Leads start.vm host.vm := by
  induction h with
  | new => exact .refl start.vm
  | perform before hpermitted hperform ih =>
    exact Relation.ReflTransGen.trans ih (leads_perform hperform)

end Host

end BytecodeDebugger
