import BytecodeDebugger.Proofs.Failures

/-!
# The commands of a debugger keep its breakpoints armed

A debugger takes a breakpoint out where a call halts and patches it again after the instruction there
was executed; before a run it patches all of them. So between its operations the only breakpoint of
the loaded program that can be without a trap is the one that the call is halted on, and after a
failed run it is the one at the instruction that failed.

## Implementation notes

`Settled` says both, by the location at which an operation failed. It also says that only a halted
call has frames: a frame to restore is then one that a call is halted in.
-/

namespace BytecodeDebugger

namespace Debuggee

/-- Only a halted call has frames. -/
def Unwound (vm : Debuggee) : Prop :=
  vm.isPaused = false → vm.machine.frames = []

variable {vm vm' : Debuggee} {fuel : Nat} {answer : Except RunError Stop}

theorem Unwound.of_sameCall (hsame : SameCall vm vm') (h : vm.Unwound) : vm'.Unwound := by
  rw [Unwound, hsame.isPaused, hsame.machine]
  exact h

theorem unwound_finish (vm : Debuggee) (value : Int32) (stack : Operands) :
    (vm.finish value stack).2.Unwound := by
  rw [finish, deliver_eq]
  exact fun _ => rfl

theorem unwound_fail (vm : Debuggee) (error : RunError) (stack : Operands) :
    (vm.fail error stack).2.Unwound := by
  rw [fail, deliver_eq]
  exact fun _ => rfl

theorem unwound_halt (vm : Debuggee) (m : Machine) : (vm.halt m).2.Unwound := by
  rw [halt]
  split
  · exact unwound_finish _ _ _
  · rw [deliver_eq]
    intro hover
    cases hover

theorem unwound_served (vm : Debuggee) (t : Transition) : (vm.served t).2.Unwound := by
  cases t with
  | moved m => exact unwound_halt _ m
  | trapped m => exact unwound_halt _ m
  | finished value stack => exact unwound_finish _ value stack
  | faulted place fault stack => exact unwound_fail _ _ stack
  | idle stack => exact unwound_finish _ _ stack

/-- However a run request ends, it leaves frames of a halted call only. -/
theorem unwound_run (h : vm.run fuel = some (answer, vm')) : vm'.Unwound := by
  cases hp : vm.program with
  | none =>
    simp only [run, hp, Option.some.injEq] at h
    have hvm : _ = vm' := congrArg Prod.snd h
    rw [← hvm]
    exact unwound_fail _ .noProgram vm.machine.stack
  | some p =>
    rw [run_eq hp] at h
    obtain ⟨t, -, hserved⟩ := Option.map_eq_some_iff.mp h
    have hvm := vm.unwound_served t
    rwa [hserved] at hvm

theorem Unwound.of_resume (hvm : vm.Unwound) (h : vm.resume fuel = some (answer, vm')) :
    vm'.Unwound := by
  rw [resume] at h
  split at h
  · exact unwound_run h
  · cases h
    exact hvm

theorem Unwound.of_call {name : String} {args : Array Int32} (hvm : vm.Unwound)
    (h : vm.call fuel name args = some (answer, vm')) : vm'.Unwound := by
  rw [call] at h
  split at h
  · cases h
    exact hvm
  · split at h
    · cases h
      exact hvm
    · split at h
      · cases h
        exact hvm
      · exact unwound_run h

/-- A call that has frames is halted in the innermost of them. -/
theorem Unwound.haltedAt? {frame : FrameInfo} (hvm : vm.Unwound)
    (hframe : vm.frameInfo? 0 = some frame) :
    vm.haltedAt? = some frame.location ∧ frame.program = vm.programId := by
  rw [frameInfo?_zero] at hframe
  obtain ⟨place, hplace, rfl⟩ := Option.map_eq_some_iff.mp hframe
  refine ⟨?_, rfl⟩
  cases hpaused : vm.isPaused with
  | true => exact (haltedAt?_of_isPaused hpaused).trans hplace
  | false =>
    have hnone : vm.machine.location? = none := by
      rw [Machine.location?, hvm hpaused]
      rfl
    rw [hnone] at hplace
    cases hplace

end Debuggee

namespace Debugger

variable {d d' : Debugger} {fuel : Nat} {failedAt : Option Location} {frame : FrameInfo}
  {target : Location}

/-- How a debugger stands after an operation that failed at a location, or did not fail. -/
structure Settled (failedAt : Option Location) (d : Debugger) : Prop where
  unwound : d.vm.Unwound
  armed : d.ArmedAfter failedAt

/-! ## Operations that run nothing -/

/-- A change that leaves the call alone and frees no breakpoint keeps a debugger settled. -/
theorem Settled.of_freesNone (hd : d.Settled none) (hsame : Debuggee.SameCall d.vm d'.vm)
    (hfrees : d.FreesNone d') : d'.Settled none := by
  refine ⟨hd.unwound.of_sameCall hsame, fun place hplace hfree => ?_⟩
  obtain ⟨hbefore, hbeforefree⟩ := hfrees place hplace hfree
  exact hsame.haltedAt?.trans (hd.armed place hbefore hbeforefree)

theorem Settled.set (hd : d.Settled none) (place : Location) : (d.set place).Settled none :=
  hd.of_freesNone (d.sameCall_set place) (d.freesNone_set place)

theorem Settled.remove (hd : d.Settled none) (place : Location) : (d.remove place).Settled none :=
  hd.of_freesNone (d.sameCall_remove place) (d.freesNone_remove place)

theorem Settled.setLine (hd : d.Settled none) (line : SourceLine) :
    (d.setLine line).2.Settled none :=
  setLine_induction line (fun _ => ⟨hd.unwound, hd.armed⟩) fun _ place he => he.set place

theorem Settled.removeLine (hd : d.Settled none) (line : SourceLine) :
    (d.removeLine line).Settled none :=
  removeLine_induction line (fun _ => ⟨hd.unwound, hd.armed⟩) fun _ place he => he.remove place

theorem Settled.rearm (hd : d.Settled none) (frame : FrameInfo) : (d.rearm frame).Settled none :=
  hd.of_freesNone (d.sameCall_rearm frame) (d.freesNone_rearm frame)

theorem Settled.rearmAll (hd : d.Settled none) : d.rearmAll.Settled none :=
  hd.of_freesNone d.sameCall_rearmAll d.freesNone_rearmAll

theorem Settled.setStepping (hd : d.Settled none) (on : Bool) : (d.setStepping on).Settled none :=
  ⟨hd.unwound, hd.armed⟩

/-- Restoring takes a trap out, but where the call is halted it may be missing. -/
theorem Settled.restoreFrame (hd : d.Settled none) (hframe : d.vm.frameInfo? 0 = some frame) :
    (d.restoreFrame frame).2.Settled none := by
  have hsame := d.sameCall_restoreFrame frame
  have hat := (hd.unwound.haltedAt? hframe).1
  refine ⟨hd.unwound.of_sameCall hsame, fun place hplace hfree => ?_⟩
  rw [hsame.haltedAt?]
  by_cases hplaced : frame.location = place
  · rw [hat, hplaced]
  · rw [isPatched_restoreFrame, decide_eq_false hplaced, Bool.and_false, Bool.not_false,
      Bool.and_true] at hfree
    refine hd.armed place ?_ hfree
    rwa [isBreakpoint_of_sameCall hsame (breakpoints_restoreFrame d frame)] at hplace

theorem settled_load (d : Debugger) {program : Program} (hplain : program.IsPlain) :
    (d.load program).2.Settled none := by
  refine ⟨?_, armed_of_isPatched fun place hplace => ?_⟩
  · have hloaded : (d.vm.load program).2.Unwound := fun _ => rfl
    exact hloaded.of_sameCall (d.sameCall_load program)
  · rw [isPatched_load d hplain]
    exact hplace

/-! ## Run requests -/

/-- A request to resume that is answered by an error was answered so by the debuggee. -/
theorem resume_eq_error {error : DebugError} (h : d.resume fuel = some (.error error, d')) :
    ∃ reason vm, error = .run reason ∧ d.vm.resume fuel = some (.error reason, vm) ∧
      d' = { d with vm } := by
  obtain ⟨⟨run, vm⟩, hrun, heq⟩ := Option.map_eq_some_iff.mp h
  match run with
  | .error reason =>
    cases heq
    exact ⟨reason, vm, rfl, hrun, rfl⟩
  | .ok (.finished value) => cases heq
  | .ok .paused =>
    obtain ⟨-, ⟨-, place, hplace⟩ | ⟨hanswer, -⟩⟩ := Debuggee.resume_rest hrun
    · simp only [Debuggee.frameInfo?_of_haltedAt? hplace] at heq
      cases heq
    · exact absurd rfl hanswer

theorem unwound_resume {answer : Except DebugError StepOutcome} (hd : d.vm.Unwound)
    (h : d.resume fuel = some (answer, d')) : d'.vm.Unwound := by
  obtain ⟨⟨run, vm⟩, hrun, heq⟩ := Option.map_eq_some_iff.mp h
  have hvm := hd.of_resume hrun
  match run with
  | .error reason =>
    cases heq
    exact hvm
  | .ok (.finished value) =>
    cases heq
    exact hvm
  | .ok .paused =>
    simp only at heq
    split at heq
    · cases heq
      exact hvm
    · rename_i frame _
      cases heq
      exact hvm.of_sameCall (sameCall_restoreFrame { d with vm } frame)

/-- A run that starts with every breakpoint patched takes out the one that it halts on, and loses
none by failing. -/
theorem settled_resume {answer : Except DebugError StepOutcome} (hunwound : d.vm.Unwound)
    (hall : ∀ place, d.isBreakpoint place = true → d.vm.isPatched place = true)
    (h : d.resume fuel = some (answer, d')) : d'.Settled (failedAt? answer) := by
  refine ⟨unwound_resume hunwound h, ?_⟩
  cases answer with
  | error error =>
    obtain ⟨reason, vm, rfl, hresume, rfl⟩ := resume_eq_error h
    refine (armed_of_isPatched hall).of_resume_error (fun place hplace hfree => ?_) hresume
    rw [hall place hplace] at hfree
    cases hfree
  | ok outcome =>
    have hresumed := resumed_resume h
    intro place hplace hfree
    have hbefore := hall place ((hresumed.isBreakpoint place).symm.trans hplace)
    rw [hresumed.isPatched, hbefore, Bool.true_and] at hfree
    simpa using hfree

/-- The breakpoint at the location left is patched again, so the only one without a trap is the one
at the new location. -/
theorem Armed.of_step (hd : d.Armed) (hat : d.vm.haltedAt? = some frame.location)
    (hprogram : frame.program = d.vm.programId) (hresumed : d.Resumed d') :
    (d'.rearm frame).Armed := by
  intro place hplace hfree
  have hsame := d'.sameCall_rearm frame
  have hset : d'.isBreakpoint place = true := by
    rwa [isBreakpoint_of_sameCall hsame (breakpoints_rearm d' frame)] at hplace
  have hcurrent : d'.isCurrent frame = true := by
    simp [isCurrent, hprogram, hresumed.programId]
  rw [isPatched_rearm, hcurrent, hset, Bool.true_and, Bool.and_true, Bool.or_eq_false_iff,
    decide_eq_false_iff_not] at hfree
  obtain ⟨hfree, hleft⟩ := hfree
  have hbefore : d.vm.isPatched place = true := by
    apply hd.isPatched_of_haltedAt?_ne ((hresumed.isBreakpoint place).symm.trans hset)
    rwa [hat, ne_eq, Option.some.injEq]
  rw [hresumed.isPatched, hbefore, Bool.true_and] at hfree
  rw [hsame.haltedAt?]
  simpa using hfree

/-! ## Stepping commands -/

theorem frameInfo?_of_pausedFrame? (h : d.pausedFrame? = some frame) :
    d.vm.frameInfo? 0 = some frame := by
  rw [pausedFrame?] at h
  split at h
  · exact h
  · cases h

theorem Settled.stepInstruction {answer : Except DebugError StepOutcome} (hd : d.Settled none)
    (h : d.stepInstruction fuel = some (answer, d')) : d'.Settled (failedAt? answer) := by
  rw [Debugger.stepInstruction] at h
  split at h
  · cases h
    exact hd
  · rename_i origin horigin
    obtain ⟨⟨resumed, e⟩, hresume, heq⟩ := Option.map_eq_some_iff.mp h
    have hframe := frameInfo?_of_pausedFrame? horigin
    have hrestored : ((d.restoreFrame origin).2.setStepping true).Settled none :=
      (hd.restoreFrame hframe).setStepping true
    have hunwound := unwound_resume hrestored.unwound hresume
    cases resumed with
    | error error =>
      cases heq
      obtain ⟨reason, vm, rfl, hrun, rfl⟩ := resume_eq_error hresume
      -- the location left is not armed again, and a failing step fails there
      exact ⟨hunwound, Armed.of_resume_error hrestored.armed (fun _ _ _ => rfl) hrun⟩
    | ok outcome =>
      cases heq
      have hsame := d.sameCall_restoreFrame origin
      obtain ⟨hat, hprogram⟩ := hd.unwound.haltedAt? hframe
      refine ⟨hunwound.of_sameCall (e.sameCall_rearm origin), ?_⟩
      exact Armed.of_step hrestored.armed (hsame.haltedAt?.trans hat)
        (hprogram.trans hsame.programId.symm) (resumed_resume hresume)

theorem Settled.stepToStopPoint {answer : Except DebugError StepOutcome} (hd : d.Settled none)
    (h : d.stepToStopPoint fuel = some (answer, d')) : d'.Settled (failedAt? answer) := by
  induction fuel generalizing d with
  | zero => cases h
  | succ fuel ih =>
    rw [Debugger.stepToStopPoint] at h
    split at h
    · cases h
    · rename_i error e hone
      cases h
      exact hd.stepInstruction hone
    · rename_i outcome e hone
      split at h
      · cases h
        exact hd.stepInstruction hone
      · exact ih (hd.stepInstruction hone) h

/-- A trap where there is no breakpoint can be taken out. -/
theorem Settled.restore (hd : d.Settled failedAt) (htarget : d.isBreakpoint target = false) :
    (d.restore target).2.Settled failedAt := by
  have hsame : Debuggee.SameCall d.vm (d.restore target).2.vm := d.vm.sameCall_restore target
  have hbreakpoint (place : Location) :
      (d.restore target).2.isBreakpoint place = d.isBreakpoint place :=
    isBreakpoint_of_sameCall hsame rfl place
  have hpatched (place : Location) (hplace : d.isBreakpoint place = true) :
      (d.restore target).2.vm.isPatched place = d.vm.isPatched place := by
    have hne : target ≠ place := by
      rintro rfl
      rw [htarget] at hplace
      cases hplace
    refine (d.vm.isPatched_restore target place).trans ?_
    rw [decide_eq_true hne, Bool.true_and]
  refine ⟨hd.unwound.of_sameCall hsame, ?_⟩
  cases failedAt with
  | none =>
    intro place hplace hfree
    rw [hbreakpoint] at hplace
    rw [hpatched place hplace] at hfree
    exact hsame.haltedAt?.trans (hd.armed place hplace hfree)
  | some failed =>
    refine ⟨hsame.isPaused.trans hd.armed.notPaused, fun place hplace => ?_⟩
    rw [hbreakpoint] at hplace
    rw [hpatched place hplace]
    exact hd.armed.isPatched_iff place hplace

/-- Running over a call starts with every breakpoint patched. Its temporary trap is taken out only if
it was put in place for the run, so not where there is a breakpoint. -/
theorem Settled.runOverCall {origin : FrameInfo} {stepped : StepOutcome}
    {answer : Except DebugError StepOutcome} (hd : d.Settled none)
    (h : d.runOverCall fuel origin stepped = some (answer, d')) :
    d'.Settled (failedAt? answer) := by
  cases htarget : d.overTarget? origin with
  | none =>
    rw [Debugger.runOverCall, htarget] at h
    cases h
    exact hd
  | some target =>
    rw [runOverCall_eq _ _ htarget] at h
    obtain ⟨⟨resumed, e⟩, hresume, heq⟩ := Option.map_eq_some_iff.mp h
    have hsame : Debuggee.SameCall d.vm (d.rearmAll.patch target).2.vm :=
      d.sameCall_rearmAll.trans (d.rearmAll.vm.sameCall_patch target)
    have hbreakpoint (place : Location) :
        (d.rearmAll.patch target).2.isBreakpoint place = d.isBreakpoint place :=
      isBreakpoint_of_sameCall hsame (breakpoints_rearmAll d) place
    have hall (place : Location) (hplace : d.isBreakpoint place = true) :
        d.rearmAll.vm.isPatched place = true := by
      rw [isPatched_rearmAll, hplace, Bool.or_true]
    have he : e.Settled (failedAt? resumed) := by
      have hunwound : ((d.rearmAll.patch target).2.setStepping false).vm.Unwound :=
        hd.unwound.of_sameCall (hsame.trans (Debuggee.sameCall_setStepping _ false))
      refine settled_resume hunwound (fun place hplace => ?_) hresume
      refine (d.rearmAll.vm.isPatched_patch target place).trans ?_
      rw [hall place ((hbreakpoint place).symm.trans hplace), Bool.true_or]
    cases heq
    split
    · rename_i hinstalled
      -- every breakpoint was patched by then, so a trap that was put in place now is at none
      have hfree : d.isBreakpoint target = false := by
        cases hset : d.isBreakpoint target with
        | false => rfl
        | true =>
          have hfst : (d.rearmAll.patch target).1 = _ := d.rearmAll.vm.patch_fst target
          rw [hall target hset, Bool.not_true, Bool.and_false, hinstalled] at hfst
          cases hfst
      refine he.restore ?_
      rw [(resumed_resume hresume).isBreakpoint]
      exact (hbreakpoint target).trans hfree
    · exact he

theorem settled_reported {command : Answer StepOutcome} {answer : Except DebugError StepOutcome}
    (hcommand : ∀ answer d', command = some (answer, d') → d'.Settled (failedAt? answer))
    (h : reported command = some (answer, d')) : d'.Settled (failedAt? answer) := by
  obtain ⟨⟨answer, e⟩, rfl, heq⟩ := Option.map_eq_some_iff.mp h
  have he := hcommand answer e rfl
  cases answer with
  | error error =>
    cases heq
    exact he
  | ok outcome =>
    cases heq
    cases outcome <;> exact ⟨he.unwound, he.armed⟩

theorem Settled.stepInto {answer : Except DebugError StepOutcome} (hd : d.Settled none)
    (h : d.stepInto fuel = some (answer, d')) : d'.Settled (failedAt? answer) :=
  settled_reported (fun _ _ => hd.stepToStopPoint) h

theorem Settled.stepNext {answer : Except DebugError StepOutcome} (hd : d.Settled none)
    (h : d.stepNext fuel = some (answer, d')) : d'.Settled (failedAt? answer) := by
  rw [Debugger.stepNext] at h
  split at h
  · cases h
    exact hd
  · simp only at h
    split at h
    · cases h
    · rename_i error e hone
      cases h
      exact hd.stepInstruction hone
    · rename_i outcome e hone
      have he : e.Settled none := hd.stepInstruction hone
      refine settled_reported (fun answer d' hcommand => ?_) h
      split at hcommand
      · exact he.runOverCall hcommand
      · split at hcommand
        · cases hcommand
          exact he
        · exact he.stepToStopPoint hcommand

theorem Settled.proceed {answer : Except DebugError StepOutcome} (hd : d.Settled none)
    (h : d.proceed fuel = some (answer, d')) : d'.Settled (failedAt? answer) := by
  rw [Debugger.proceed] at h
  split at h
  · cases h
  · rename_i error e hone
    cases h
    exact hd.stepInstruction hone
  · rename_i outcome e hone
    have he : e.Settled none := hd.stepInstruction hone
    refine settled_reported (fun answer d' hcommand => ?_) h
    split at hcommand
    · have hunwound : (e.rearmAll.setStepping false).vm.Unwound := he.rearmAll.unwound
      refine settled_resume hunwound (fun place hplace => ?_) hcommand
      have hset : e.isBreakpoint place = true :=
        (isBreakpoint_of_sameCall e.sameCall_rearmAll (breakpoints_rearmAll e) place).symm.trans
          hplace
      refine (isPatched_rearmAll e place).trans ?_
      rw [hset, Bool.or_true]
    · cases hcommand
      exact he

/-- A call at the level of a debugger is a call of its debuggee, reported to the subscribers. -/
theorem call_cases {name : String} {args : Array Int32} {answer : Except DebugError Stop}
    (h : d.call fuel name args = some (answer, d')) :
    d'.breakpoints = d.breakpoints ∧
      ((∃ error, answer = .error (.run error) ∧
          d.vm.call fuel name args = some (.error error, d'.vm)) ∨
        ∃ stop, answer = .ok stop ∧ d.vm.call fuel name args = some (.ok stop, d'.vm)) := by
  obtain ⟨⟨run, vm⟩, hrun, heq⟩ := Option.map_eq_some_iff.mp h
  match run with
  | .error error =>
    cases heq
    exact ⟨rfl, .inl ⟨error, rfl, hrun⟩⟩
  | .ok (.finished value) =>
    cases heq
    exact ⟨rfl, .inr ⟨.finished value, rfl, hrun⟩⟩
  | .ok .paused =>
    simp only at heq
    split at heq <;> cases heq <;> exact ⟨rfl, .inr ⟨.paused, rfl, hrun⟩⟩

/-- A call begins with every breakpoint patched and takes none out. -/
theorem Settled.call {name : String} {args : Array Int32} {answer : Except DebugError Stop}
    (hd : d.Settled none) (h : d.call fuel name args = some (answer, d')) :
    d'.Settled (failedAt? answer) := by
  obtain ⟨hset, ⟨error, rfl, hcall⟩ | ⟨stop, rfl, hcall⟩⟩ := call_cases h
  · refine ⟨hd.unwound.of_call hcall, ?_⟩
    have hafter := Armed.of_call_error hd.armed hcall
    exact hafter.congr (d := { d with vm := d'.vm }) rfl hset
  · refine ⟨hd.unwound.of_call hcall, armed_of_isPatched fun place hplace => ?_⟩
    obtain ⟨-, error, herror⟩ | ⟨hidle, hsame, -⟩ := Debuggee.call_rest hcall
    · cases herror
    · rw [hsame.isPatched]
      refine Armed.isPatched hd.armed hidle ?_
      rwa [isBreakpoint, hasBreakpoint, hset, Debuggee.hasAddress, hsame.plain] at hplace

/-! ## Operations -/

/-- The operations that leave the traps to the debugger: programs are loaded without patches, only the
instruction of the innermost frame is restored, and nothing is patched by hand. -/
def Permits (d : Debugger) : DebuggerOperation → Prop
  | .load program => program.IsPlain
  | .restoreFrame frame => d.vm.frameInfo? 0 = some frame
  | .patch _ => False
  | _ => True

/-- What every operation of a debugger leaves behind. Loading arms the breakpoints anew, whatever was
before. -/
theorem settled_perform {operation : DebuggerOperation} {reply : Reply}
    (hd : (Operation.debugger operation).loads = false → d.Settled none)
    (hpermits : d.Permits operation) (h : d.perform fuel operation = some (reply, d')) :
    d'.Settled reply.failedAt? := by
  have hstepped {command : Answer StepOutcome}
      (hcommand : ∀ answer (e : Debugger), command = some (answer, e) → e.Settled (failedAt? answer))
      (h : (command.map fun r => (Reply.ofDebug .stepped r.1, r.2)) = some (reply, d')) :
      d'.Settled reply.failedAt? := by
    obtain ⟨⟨answer, e⟩, hanswer, heq⟩ := Option.map_eq_some_iff.mp h
    cases heq
    rw [Reply.failedAt?_ofDebug fun outcome => by cases outcome <;> rfl]
    exact hcommand answer _ hanswer
  cases operation with
  | load program =>
    cases h
    exact d.settled_load hpermits
  | set place =>
    cases h
    exact (hd rfl).set place
  | remove place =>
    cases h
    exact (hd rfl).remove place
  | setLine line =>
    cases h
    exact (hd rfl).setLine line
  | removeLine line =>
    cases h
    exact (hd rfl).removeLine line
  | patch place => exact hpermits.elim
  | restoreFrame frame =>
    cases h
    exact (hd rfl).restoreFrame hpermits
  | rearm frame =>
    cases h
    exact (hd rfl).rearm frame
  | rearmAll =>
    cases h
    exact (hd rfl).rearmAll
  | call name args =>
    obtain ⟨⟨answer, e⟩, hcall, heq⟩ := Option.map_eq_some_iff.mp h
    cases heq
    rw [Reply.failedAt?_ofDebug fun stop => by cases stop <;> rfl]
    exact (hd rfl).call hcall
  | stepInto => exact hstepped (fun _ _ => (hd rfl).stepInto) h
  | stepNext => exact hstepped (fun _ _ => (hd rfl).stepNext) h
  | proceed => exact hstepped (fun _ _ => (hd rfl).proceed) h
  | pause =>
    cases h
    exact (hd rfl).setStepping true

end Debugger

end BytecodeDebugger
