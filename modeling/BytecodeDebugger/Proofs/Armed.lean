import BytecodeDebugger.Proofs.Failures
import BytecodeDebugger.Proofs.ForeignTraps
import BytecodeDebugger.Proofs.Requests

/-!
# Breakpoints stay armed

Between the commands of a stepper, as long as no run has failed, every breakpoint of the loaded
program is patched but the one that the call is halted on, and that one is noted. The note is what a
free run needs to know: where it is missing, nothing but breakpoints is patched and every breakpoint
is.

## Implementation notes

A step that fails leaves the location it started from unpatched, so the invariant is claimed only
for sessions without a failure since the last load. What a failure does leave is stated beside it:
`ArmedAfter` goes by the location at which a request failed, if it did.
-/

namespace BytecodeDebugger

namespace Debuggee

/-- The loaded program was written without traps, and a halted call is a call of it. -/
structure IsSound (vm : Debuggee) : Prop where
  trapFree : ∀ program, vm.plain? = some program → program.TrapFree
  halted : vm.isPaused = true → vm.plain?.isSome ∧ vm.machine.frames ≠ []

variable {vm vm' : Debuggee}

theorem IsSound.of_sameCall (hsame : SameCall vm vm') (h : vm.IsSound) : vm'.IsSound := by
  refine ⟨?_, ?_⟩
  · rw [hsame.plain]
    exact h.trapFree
  · rw [hsame.isPaused, hsame.plain, hsame.machine]
    exact h.halted

theorem IsSound.haltedIn (h : vm.IsSound) (hpaused : vm.isPaused = true) :
    ∃ program, vm.HaltedIn program vm.machine := by
  obtain ⟨hsome, hframes⟩ := h.halted hpaused
  obtain ⟨program, hprogram⟩ := Option.isSome_iff_exists.mp hsome
  refine ⟨program, hprogram, h.trapFree program hprogram, ?_, rfl, hframes⟩
  exact eq_of_beq hpaused

/-- A run request keeps the program, and leaves a halted call in a frame. -/
theorem IsSound.of_run {fuel : Nat} {answer : Except RunError Stop} (h : vm.IsSound)
    (hloaded : vm.plain?.isSome) (hrun : vm.run fuel = some (answer, vm')) : vm'.IsSound := by
  obtain ⟨hsame, hrest⟩ := run_rest hrun
  refine ⟨?_, fun hpaused => ?_⟩
  · rw [hsame.plain]
    exact h.trapFree
  · rw [hsame.plain]
    rcases hrest with ⟨-, -, hframes⟩ | ⟨-, hstate⟩
    · exact ⟨hloaded, hframes⟩
    · rw [isPaused, hstate] at hpaused
      cases hpaused

theorem IsSound.of_resume {fuel : Nat} {answer : Except RunError Stop} (h : vm.IsSound)
    (hresume : vm.resume fuel = some (answer, vm')) : vm'.IsSound := by
  rw [resume] at hresume
  split at hresume
  · rename_i hpaused
    exact h.of_run (h.halted hpaused).1 hresume
  · cases hresume
    exact h

theorem IsSound.of_call {fuel : Nat} {name : String} {args : Array Int32}
    {answer : Except RunError Stop} (h : vm.IsSound)
    (hcall : vm.call fuel name args = some (answer, vm')) : vm'.IsSound := by
  rw [call] at hcall
  split at hcall
  · cases hcall
    exact h
  · rename_i hidle
    split at hcall
    · cases hcall
      exact h
    · rename_i program hprogram
      split at hcall
      · cases hcall
        exact h
      · rename_i function _
        have hready : IsSound { vm with machine := Machine.start function args } :=
          ⟨h.trapFree, fun hpaused => absurd hpaused hidle⟩
        refine hready.of_run ?_ hcall
        rw [plain?, hprogram]
        rfl

theorem isSound_load (vm : Debuggee) {program : Program} (hfree : program.TrapFree) :
    (vm.load program).2.IsSound := by
  refine ⟨fun p hp => ?_, nofun⟩
  have hplain : p = program.unpatched := (Option.some.inj hp).symm
  intro place i hi
  rw [hplain, Program.instructionAt?_unpatched] at hi
  exact hfree place i hi

end Debuggee

namespace Stepper

theorem preserved_isSound : Preserved fun d => d.vm.IsSound where
  resume {s s' fuel answer} h hresume := by
    rw [resume_eq] at hresume
    obtain ⟨⟨run, vm⟩, hrun, heq⟩ := Option.map_eq_some_iff.mp hresume
    have hvm : vm.IsSound := h.of_resume hrun
    match run with
    | .ok .paused =>
      cases heq
      exact hvm.of_sameCall (sameCall_noteBreak _)
    | .ok (.finished value) =>
      cases heq
      rw [debugger_noteFinished]
      exact hvm
    | .error error =>
      cases heq
      rw [debugger_noteError]
      exact hvm
  call h hcall := h.of_call hcall
  restoreFrame {d} frame h := h.of_sameCall (d.sameCall_restoreFrame frame)
  rearm {d} frame h := h.of_sameCall (d.sameCall_rearm frame)
  setStepping on h := h.of_sameCall (Debuggee.sameCall_setStepping _ on)

/-- Every operation of a stepper that loads no traps keeps the debuggee sound. -/
theorem isSound_perform {s s' : Stepper} {fuel : Nat} {operation : StepperOperation} {reply : Reply}
    (hfree : ∀ program, operation = .load program → program.TrapFree) (hs : s.vm.IsSound)
    (h : s.perform fuel operation = some (reply, s')) : s'.vm.IsSound := by
  cases operation with
  | load program =>
    cases h
    rw [load, vm_setPaused]
    have hloaded := Debuggee.isSound_load s.vm (hfree program rfl)
    exact hloaded.of_sameCall (s.debugger.sameCall_load program)
  | call name args =>
    obtain ⟨⟨answer, t⟩, hcall, heq⟩ := Option.map_eq_some_iff.mp h
    cases heq
    exact preserved_isSound.ofCall hs hcall
  | start command =>
    obtain ⟨⟨answer, t⟩, hstart, heq⟩ := Option.map_eq_some_iff.mp h
    cases heq
    exact preserved_isSound.start hs hstart
  | set place => exact hs.of_sameCall (quiet_perform rfl h).1
  | remove place => exact hs.of_sameCall (quiet_perform rfl h).1
  | pause => exact hs.of_sameCall (quiet_perform rfl h).1

/-- Traps stand at breakpoints only, and at every breakpoint but the one that the call is halted on,
which is noted. -/
structure Armed (s : Stepper) : Prop where
  covered : s.debugger.Covered
  armed : ∀ place, s.debugger.isBreakpoint place = true → s.vm.isPatched place = false →
    s.vm.haltedAt? = some place ∧ s.onBreakpoint = true

variable {s s' : Stepper} {fuel : Nat}

theorem Armed.isBreakpoint (h : s.Armed) {place : Location} (hplace : s.vm.isPatched place = true) :
    s.debugger.isBreakpoint place = true :=
  h.covered.isBreakpoint hplace

/-- Where no halt on a breakpoint is noted, exactly the breakpoints are patched. -/
theorem Armed.isPatched_eq (h : s.Armed) (hnote : s.onBreakpoint = false) (place : Location) :
    s.vm.isPatched place = s.debugger.isBreakpoint place := by
  cases hplace : s.vm.isPatched place with
  | true => exact (h.isBreakpoint hplace).symm
  | false =>
    cases hbreakpoint : s.debugger.isBreakpoint place with
    | false => rfl
    | true =>
      have hnoted := (h.armed place hbreakpoint hplace).2
      rw [hnote] at hnoted
      cases hnoted

/-- A run request that starts with every breakpoint patched keeps a stepper armed, however it
ends. -/
theorem Armed.of_resumed (h : s.Armed)
    (hall : ∀ place, s.debugger.isBreakpoint place = true → s.vm.isPatched place = true)
    (hresumed : s.Resumed s') : s'.Armed := by
  refine ⟨h.covered.of_resumed hresumed.debugger, fun place hplace hfree => ?_⟩
  have hbefore : s.vm.isPatched place = true :=
    hall place ((hresumed.debugger.isBreakpoint place).symm.trans hplace)
  have hat : s'.vm.haltedAt? = some place := by
    have hpatched : s'.vm.isPatched place =
        (s.vm.isPatched place && decide (s'.vm.haltedAt? ≠ some place)) :=
      hresumed.debugger.isPatched place
    rw [hfree, hbefore, Bool.true_and] at hpatched
    simpa using hpatched.symm
  rw [hresumed.onBreakpoint, hat]
  exact ⟨rfl, hbefore⟩

theorem Armed.debugger (h : s.Armed) : s.debugger.Armed :=
  fun place hplace hfree => (h.armed place hplace hfree).1

/-- A single step leaves a stepper armed, whether or not the halt that it starts from is noted. The
only breakpoint without a trap was the one left, and it is armed again. -/
theorem armed_of_stepped (hcovered : s.debugger.Covered) (harmed : s.debugger.Armed)
    (hstepped : s.Stepped s') : s'.Armed := by
  have hhas (place : Location) :
      s'.debugger.hasBreakpoint place = s.debugger.hasBreakpoint place := by
    rw [Debugger.hasBreakpoint, hstepped.breakpoints, Debugger.hasBreakpoint]
  refine ⟨fun place hplace => ?_, fun place hplace hfree => ?_⟩
  · have hpatched := (hstepped.isPatched place).symm.trans hplace
    rw [Bool.or_eq_true_iff, Bool.and_eq_true_iff, Bool.and_eq_true_iff] at hpatched
    rw [hhas]
    rcases hpatched with ⟨hbefore, -⟩ | ⟨-, hrearmed⟩
    · exact hcovered place hbefore
    · exact (Bool.and_eq_true_iff.mp hrearmed).1
  · have hset : s.debugger.isBreakpoint place = true :=
      (hstepped.isBreakpoint place).symm.trans hplace
    rw [hstepped.isPatched place, Bool.or_eq_false_iff, hset, Bool.and_true] at hfree
    obtain ⟨hkept, hleft⟩ := hfree
    have hbefore : s.vm.isPatched place = true :=
      harmed.isPatched_of_haltedAt?_ne hset (of_decide_eq_false hleft)
    have hat : s'.vm.haltedAt? = some place := by
      rw [hbefore, Bool.true_and] at hkept
      simpa using hkept
    rw [hstepped.onBreakpoint, hat]
    exact ⟨rfl, hbefore⟩

theorem Armed.of_stepped (h : s.Armed) (hstepped : s.Stepped s') : s'.Armed :=
  armed_of_stepped h.covered h.debugger hstepped

theorem Armed.setStepping (h : s.Armed) (on : Bool) : (s.setStepping on).Armed :=
  ⟨h.covered, h.armed⟩

theorem isPaused_of_resume {halted : Bool} (h : s.resume fuel = some (.ok halted, s')) :
    s.vm.isPaused = true := by
  cases hpaused : s.vm.isPaused with
  | true => rfl
  | false =>
    rw [resume_eq, Debuggee.resume_of_not_isPaused hpaused] at h
    cases h

/-- A request to resume that is answered by an error was answered so by the debuggee. -/
theorem resume_eq_error {error : DebugError} (h : s.resume fuel = some (.error error, s')) :
    ∃ reason vm, error = .run reason ∧ s.vm.resume fuel = some (.error reason, vm) ∧
      s'.debugger = { s.debugger with vm } := by
  rw [resume_eq] at h
  obtain ⟨⟨run, vm⟩, hresume, heq⟩ := Option.map_eq_some_iff.mp h
  match run with
  | .ok .paused => cases heq
  | .ok (.finished value) => cases heq
  | .error reason =>
    cases heq
    refine ⟨reason, vm, rfl, hresume, ?_⟩
    rw [debugger_noteError, withVm, debugger_setPaused]

/-- How a stepper is left by a request that failed at a location, or did not fail. -/
def ArmedAfter (s : Stepper) : Option Location → Prop
  | none => s.Armed
  | some place => s.debugger.FailedAt place

theorem ArmedAfter.debugger {failedAt : Option Location} (h : s.ArmedAfter failedAt) :
    s.debugger.ArmedAfter failedAt := by
  cases failedAt with
  | none => exact Armed.debugger h
  | some place => exact h

theorem Armed.withPlan (h : s.Armed) (plan : Option Plan) (state : PlanState) :
    Armed { s with plan, state } :=
  ⟨h.covered, h.armed⟩

theorem ArmedAfter.withPlan {failedAt : Option Location} (h : s.ArmedAfter failedAt)
    (plan : Option Plan) (state : PlanState) : ArmedAfter { s with plan, state } failedAt := by
  cases failedAt with
  | none => exact Armed.withPlan h plan state
  | some place => exact h

/-- A request to resume that is answered by an error. Where a breakpoint is without a trap, it is a
single step. -/
theorem armedAfter_of_error {error : DebugError} (hcovered : s.debugger.Covered)
    (harmed : s.debugger.Armed)
    (hsingle : ∀ place, s.debugger.isBreakpoint place = true → s.vm.isPatched place = false →
      s.vm.stepping = true)
    (h : s.resume fuel = some (.error error, s')) : s'.ArmedAfter error.failedAt? := by
  have hcovered' := hcovered.of_resumed (resumed_resume h).debugger
  obtain ⟨reason, vm, rfl, hresume, hdebugger⟩ := resume_eq_error h
  have hafter : s'.debugger.ArmedAfter reason.failedAt? := by
    rw [hdebugger]
    exact harmed.of_resume_error hsingle hresume
  change s'.ArmedAfter reason.failedAt?
  cases hfailed : reason.failedAt? with
  | some place =>
    rw [hfailed] at hafter
    exact hafter
  | none =>
    rw [hfailed] at hafter
    refine ⟨hcovered', fun place hplace hfree => ?_⟩
    -- no call is halted after an error, so there is no breakpoint without a trap
    obtain ⟨-, ⟨hanswer, -⟩ | ⟨-, hover⟩⟩ := Debuggee.resume_rest hresume
    · cases hanswer
    · have hidle : s'.debugger.vm.isPaused = false := by rwa [hdebugger]
      have hpatched : s'.vm.isPatched place = true := Debugger.Armed.isPatched hafter hidle hplace
      rw [hpatched] at hfree
      cases hfree

/-- A request to resume that is answered by an error, from a noted breakpoint by a single step
only. -/
theorem Armed.of_error {error : DebugError} (hs : s.Armed)
    (hsingle : s.vm.stepping = true ∨ s.onBreakpoint = false)
    (h : s.resume fuel = some (.error error, s')) :
    s'.ArmedAfter error.failedAt? := by
  refine armedAfter_of_error hs.covered hs.debugger (fun place hplace hfree => ?_) h
  have hnoted := (hs.armed place hplace hfree).2
  exact hsingle.resolve_right (by simp [hnoted])

/-- A free run that starts with no halt on a breakpoint noted starts with every breakpoint
patched. -/
theorem Armed.runFreely {request : Request} {answer : Except DebugError Unit} (hs : s.Armed)
    (hnote : s.onBreakpoint = false) (h : s.runFreely fuel request = some (answer, s')) :
    s'.ArmedAfter (failedAt? answer) := by
  cases request with
  | step =>
    cases h
    exact hs
  | proceed =>
    obtain ⟨⟨resumed, t⟩, hresume, heq⟩ := Option.map_eq_some_iff.mp h
    have hfree : (s.setStepping false).Armed := hs.setStepping false
    cases resumed with
    | error error =>
      cases heq
      exact hfree.of_error (.inr hnote) hresume
    | ok halted =>
      cases heq
      refine hfree.of_resumed (fun place hplace => ?_) (resumed_resume hresume)
      exact (hs.isPatched_eq hnote place).trans hplace

/-- What a request of a plan leaves behind. -/
theorem Armed.serve {request : Request} {answer : Except DebugError Unit} (hs : s.Armed)
    (h : s.serve fuel request = some (answer, s')) : s'.ArmedAfter (failedAt? answer) := by
  simp only [Stepper.serve] at h
  split at h
  · split at h
    · cases h
    · rename_i error t hresume
      cases h
      exact (hs.setStepping true).of_error (.inl rfl) hresume
    · rename_i halted t hresume
      have hpaused : (s.setStepping true).vm.isPaused = true := isPaused_of_resume hresume
      have hrearmed := hs.of_stepped (stepped_rearm hpaused (resumed_resume hresume))
      split at h
      · cases h
        exact hrearmed
      · rename_i hgo
        refine hrearmed.runFreely ?_ h
        rw [Bool.or_eq_true_iff, not_or, Bool.not_eq_true] at hgo
        simpa using hgo.2
  · rename_i hgo
    refine hs.runFreely ?_ h
    rw [Bool.or_eq_true_iff, not_or, Bool.not_eq_true] at hgo
    exact hgo.1

theorem Armed.complete (h : s.Armed) (starting : Bool) (frame : Option FrameInfo) :
    (s.complete starting frame).Armed := by
  have hnote : (s.complete starting frame).onBreakpoint = s.onBreakpoint := by
    cases starting <;> cases frame <;> cases hplan : s.plan.isSome <;>
      simp [Stepper.complete, hplan]
  refine ⟨?_, ?_⟩
  · rw [debugger_complete]
    exact h.covered
  · rw [debugger_complete, vm_complete, hnote]
    exact h.armed

theorem Armed.advance {starting : Bool} {answer : Except DebugError Bool} (hs : s.Armed)
    (h : s.advance starting fuel = some (answer, s')) : s'.ArmedAfter (failedAt? answer) := by
  simp only [Stepper.advance] at h
  split at h
  · cases h
    exact hs.complete _ _
  · split at h
    · cases h
      exact hs.complete _ _
    · rename_i request plan hnext
      obtain ⟨⟨served, t⟩, hserve, heq⟩ := Option.map_eq_some_iff.mp h
      cases heq
      rw [failedAt?_map]
      exact (hs.withPlan (some plan) .active).serve hserve

/-- Serving the requests of a plan, by induction on the bound. -/
theorem Armed.drive {starting : Bool} {answer : Except DebugError Unit} (hs : s.Armed)
    (h : s.drive starting fuel = some (answer, s')) : s'.ArmedAfter (failedAt? answer) := by
  induction fuel generalizing s with
  | zero => cases h
  | succ fuel ih =>
    rw [Stepper.drive] at h
    split at h
    · cases h
    · rename_i error t hadvance
      cases h
      exact hs.advance hadvance
    · rename_i t hadvance
      cases h
      exact hs.advance hadvance
    · rename_i t hadvance
      exact ih (hs.advance hadvance) h

theorem Armed.start {command : Command} {answer : Except DebugError Bool} (hs : s.Armed)
    (h : s.start fuel command = some (answer, s')) : s'.ArmedAfter (failedAt? answer) := by
  rw [Stepper.start] at h
  split at h
  · obtain ⟨⟨driven, t⟩, hdrive, heq⟩ := Option.map_eq_some_iff.mp h
    have ht := (hs.withPlan (some { command }) .starting).drive hdrive
    cases driven with
    | ok value =>
      cases heq
      exact ht
    | error error =>
      cases heq
      exact ht.withPlan none .completed
  · cases h
    exact hs

/-! ## Plans are over when a command is -/

@[simp]
theorem plan_complete (starting : Bool) (frame : Option FrameInfo) (s : Stepper) :
    (s.complete starting frame).plan = none := by
  cases starting <;> cases frame <;> cases hplan : s.plan <;> simp [Stepper.complete, hplan]

theorem plan_of_drive {starting : Bool} (h : s.drive starting fuel = some (.ok (), s')) :
    s'.plan = none := by
  induction fuel generalizing s with
  | zero => cases h
  | succ fuel ih =>
    rw [Stepper.drive] at h
    split at h
    · cases h
    · cases h
    · rename_i t hadvance
      cases h
      simp only [Stepper.advance] at hadvance
      split at hadvance
      · cases hadvance
        exact plan_complete _ _ _
      · split at hadvance
        · cases hadvance
          exact plan_complete _ _ _
        · obtain ⟨⟨served, t⟩, -, heq⟩ := Option.map_eq_some_iff.mp hadvance
          cases served <;> cases heq
    · exact ih h

theorem plan_start {command : Command} {answer : Except DebugError Bool} (hplan : s.plan = none)
    (h : s.start fuel command = some (answer, s')) : s'.plan = none := by
  rw [Stepper.start] at h
  split at h
  · obtain ⟨⟨driven, t⟩, hdrive, heq⟩ := Option.map_eq_some_iff.mp h
    cases driven with
    | ok value =>
      cases heq
      exact plan_of_drive hdrive
    | error error =>
      cases heq
      rfl
  · cases h
    exact hplan

/-- Without a plan there is nothing to drive. -/
theorem drive_succ_of_plan_eq_none (hplan : s.plan = none) (starting : Bool) (fuel : Nat) :
    s.drive starting (fuel + 1) = some (.ok (), s.complete starting s.observe.frame) := by
  simp only [Stepper.drive, Stepper.advance, hplan]

theorem drive_of_plan_eq_none {starting : Bool} {answer : Except DebugError Unit}
    (hplan : s.plan = none) (h : s.drive starting fuel = some (answer, s')) :
    answer = .ok () ∧ s' = s.complete starting s.observe.frame := by
  cases fuel with
  | zero => cases h
  | succ fuel =>
    rw [drive_succ_of_plan_eq_none hplan] at h
    cases h
    exact ⟨rfl, rfl⟩

/-! ## Calls -/

theorem withVm_self (s : Stepper) : s.withVm s.vm = s := rfl

/-- A call is answered as the debuggee answers it. A halt is noted and passed to the subscribers,
the end of the call or its failure is noted. -/
theorem call_eq_some {name : String} {args : Array Int32} {answer : Except DebugError Stop}
    (hplan : s.plan = none) (h : s.call fuel name args = some (answer, s')) :
    ∃ run vm, s.vm.call fuel name args = some (run, vm) ∧
      ((run = .ok .paused ∧ answer = .ok .paused ∧ s' = (s.withVm vm).noteBreak.complete false
          (s.withVm vm).noteBreak.observe.frame) ∨
        (∃ value, run = .ok (.finished value) ∧ answer = .ok (.finished value) ∧
          s' = (s.withVm vm).noteFinished) ∨
        ∃ reason, run = .error reason ∧ answer = .error (.run reason) ∧
          s' = (s.withVm vm).noteError) := by
  simp only [Stepper.call] at h
  split at h
  · cases h
  · rename_i vm hcall
    obtain ⟨⟨driven, t⟩, hdrive, heq⟩ := Option.map_eq_some_iff.mp h
    have hnone : (s.withVm vm).noteBreak.plan = none := (sameCommand_noteBreak _).plan.trans hplan
    obtain ⟨rfl, rfl⟩ := drive_of_plan_eq_none hnone hdrive
    cases heq
    exact ⟨_, vm, hcall, .inl ⟨rfl, rfl, rfl⟩⟩
  · rename_i value vm hcall
    cases h
    exact ⟨_, vm, hcall, .inr (.inl ⟨value, rfl, rfl, rfl⟩)⟩
  · rename_i reason vm hcall
    cases h
    exact ⟨_, vm, hcall, .inr (.inr ⟨reason, rfl, rfl, rfl⟩)⟩

/-- What a call makes of a stepper: nothing, if it is rejected while a call is halted, and otherwise
what a run request makes of it. -/
theorem call_cases {name : String} {args : Array Int32} {answer : Except DebugError Stop}
    (hplan : s.plan = none) (h : s.call fuel name args = some (answer, s')) :
    s' = s ∨ s.vm.isPaused = false ∧ ∃ t, s.Resumed t ∧
      (s' = t ∨ s' = t.complete false t.observe.frame) := by
  obtain ⟨run, vm, hcall, hended⟩ := call_eq_some hplan h
  obtain ⟨rfl, hrejected⟩ | ⟨hidle, hsame, hrest⟩ := Debuggee.call_rest hcall
  · obtain ⟨error, rfl⟩ := hrejected
    obtain ⟨hrun, -⟩ | ⟨value, hrun, -⟩ | ⟨reason, -, -, rfl⟩ := hended
    · cases hrun
    · cases hrun
    · rw [withVm_self]
      cases hpaused : s.vm.isPaused with
      | true =>
        left
        rw [noteError, if_pos hpaused]
      | false =>
        refine .inr ⟨rfl, _, ?_, .inl rfl⟩
        rw [noteError_of_not_isPaused hpaused]
        exact resumed_noteFinished (s := s) (.refl s.vm) hpaused
  · refine .inr ⟨hidle, ?_⟩
    obtain ⟨rfl, -, rfl⟩ | ⟨value, rfl, -, rfl⟩ | ⟨reason, rfl, -, rfl⟩ := hended
    · obtain ⟨-, place, hplace⟩ | ⟨hanswer, -⟩ := hrest
      · exact ⟨_, resumed_noteBreak (s := s) hsame hplace, .inr rfl⟩
      · exact absurd rfl hanswer
    · obtain ⟨hanswer, -⟩ | ⟨-, hpaused⟩ := hrest
      · cases hanswer
      · exact ⟨_, resumed_noteFinished (s := s) hsame hpaused, .inl rfl⟩
    · obtain ⟨hanswer, -⟩ | ⟨-, hpaused⟩ := hrest
      · cases hanswer
      · refine ⟨_, ?_, .inl rfl⟩
        rw [noteError_of_not_isPaused (s := s.withVm vm) hpaused]
        exact resumed_noteFinished (s := s) hsame hpaused

/-- A call that is answered by an error was answered so by the debuggee. -/
theorem call_eq_error {name : String} {args : Array Int32} {error : DebugError}
    (hplan : s.plan = none) (h : s.call fuel name args = some (.error error, s')) :
    ∃ reason vm, error = .run reason ∧ s.vm.call fuel name args = some (.error reason, vm) ∧
      s'.debugger = { s.debugger with vm } := by
  obtain ⟨run, vm, hcall, ⟨-, hanswer, -⟩ | ⟨value, -, hanswer, -⟩ | ⟨reason, rfl, hanswer, rfl⟩⟩ :=
    call_eq_some hplan h
  · cases hanswer
  · cases hanswer
  · cases hanswer
    exact ⟨reason, vm, rfl, hcall, debugger_noteError _⟩

theorem Armed.call {name : String} {args : Array Int32} {answer : Except DebugError Stop}
    (hs : s.Armed) (hplan : s.plan = none) (h : s.call fuel name args = some (answer, s')) :
    s'.ArmedAfter (failedAt? answer) := by
  have harmed : s'.Armed := by
    obtain rfl | ⟨hidle, t, hresumed, hs'⟩ := call_cases hplan h
    · exact hs
    · have ht := hs.of_resumed (fun _ => hs.debugger.isPatched hidle) hresumed
      rcases hs' with rfl | rfl
      · exact ht
      · exact ht.complete _ _
  cases hfailed : failedAt? answer with
  | none => exact harmed
  | some place =>
    cases answer with
    | ok stop => cases hfailed
    | error error =>
      obtain ⟨reason, vm, rfl, hcall, hdebugger⟩ := call_eq_error hplan h
      have hafter := hs.debugger.of_call_error hcall
      rw [show reason.failedAt? = some place from hfailed, ← hdebugger] at hafter
      exact hafter

theorem plan_call {name : String} {args : Array Int32} {answer : Except DebugError Stop}
    (hplan : s.plan = none) (h : s.call fuel name args = some (answer, s')) : s'.plan = none := by
  obtain rfl | ⟨-, t, hresumed, rfl | rfl⟩ := call_cases hplan h
  · exact hplan
  · exact hresumed.plan.trans hplan
  · exact plan_complete _ _ _

/-! ## Changes of the set of breakpoints -/

/-- A change that leaves the call alone and frees no breakpoint keeps a stepper armed. -/
theorem Armed.withDebugger {d : Debugger} (h : s.Armed)
    (hsame : Debuggee.SameCall s.debugger.vm d.vm) (hcovered : d.Covered)
    (hfrees : s.debugger.FreesNone d) : Armed { s with debugger := d } := by
  refine ⟨hcovered, fun place hplace hfree => ?_⟩
  obtain ⟨hbefore, hbeforefree⟩ := hfrees place hplace hfree
  obtain ⟨hat, hnote⟩ := h.armed place hbefore hbeforefree
  exact ⟨hsame.haltedAt?.trans hat, hnote⟩

theorem Armed.set (h : s.Armed) (place : Location) : (s.set place).Armed :=
  h.withDebugger (s.debugger.sameCall_set place) (h.covered.set place)
    (s.debugger.freesNone_set place)

theorem Armed.remove (h : s.Armed) (place : Location) : (s.remove place).Armed :=
  h.withDebugger (s.debugger.sameCall_remove place) (h.covered.remove place)
    (s.debugger.freesNone_remove place)

theorem Armed.setLine (h : s.Armed) (line : SourceLine) :
    Armed { s with debugger := (s.debugger.setLine line).2 } :=
  Debugger.setLine_induction (P := fun d => Armed { s with debugger := d }) line
    (fun _ => ⟨h.covered, h.armed⟩) fun _ place he => he.set place

theorem Armed.removeLine (h : s.Armed) (line : SourceLine) :
    Armed { s with debugger := s.debugger.removeLine line } :=
  Debugger.removeLine_induction (P := fun d => Armed { s with debugger := d }) line
    (fun _ => ⟨h.covered, h.armed⟩) fun _ place he => he.remove place

theorem armed_load (s : Stepper) {program : Program} (hplain : program.IsPlain) :
    (s.load program).Armed := by
  have hdebugger : (s.load program).debugger = (s.debugger.load program).2 :=
    debugger_setPaused _ false
  have hvm : (s.load program).vm = (s.debugger.load program).2.vm := vm_setPaused _ false
  refine ⟨?_, fun place hplace hfree => ?_⟩
  · rw [hdebugger]
    exact s.debugger.covered_load hplain
  · rw [hvm, s.debugger.isPatched_load hplain, ← hdebugger, hplace] at hfree
    cases hfree

theorem plan_load (s : Stepper) (program : Program) : (s.load program).plan = none :=
  plan_setPaused _ false

/-! ## Operations -/

section Operations

variable {operation : StepperOperation} {reply : Reply}

theorem plan_perform (hplan : (Operation.stepper operation).loads = false → s.plan = none)
    (h : s.perform fuel operation = some (reply, s')) : s'.plan = none := by
  cases operation with
  | load program =>
    cases h
    exact plan_load s program
  | call name args =>
    obtain ⟨⟨answer, t⟩, hcall, heq⟩ := Option.map_eq_some_iff.mp h
    cases heq
    exact plan_call (hplan rfl) hcall
  | start command =>
    obtain ⟨⟨answer, t⟩, hstart, heq⟩ := Option.map_eq_some_iff.mp h
    cases heq
    exact plan_start (hplan rfl) hstart
  | set place =>
    cases h
    exact hplan rfl
  | remove place =>
    cases h
    exact hplan rfl
  | pause =>
    cases h
    exact hplan rfl

/-- What every operation of a stepper leaves behind. Loading arms the breakpoints anew, whatever was
before. -/
theorem armedAfter_perform
    (hs : (Operation.stepper operation).loads = false → s.plan = none ∧ s.Armed)
    (hplain : ∀ program, operation = .load program → program.IsPlain)
    (h : s.perform fuel operation = some (reply, s')) : s'.ArmedAfter reply.failedAt? := by
  cases operation with
  | load program =>
    cases h
    exact armed_load s (hplain program rfl)
  | set place =>
    cases h
    exact (hs rfl).2.set place
  | remove place =>
    cases h
    exact (hs rfl).2.remove place
  | call name args =>
    obtain ⟨⟨answer, t⟩, hcall, heq⟩ := Option.map_eq_some_iff.mp h
    cases heq
    rw [Reply.failedAt?_ofDebug (fun stop => by cases stop <;> rfl)]
    exact (hs rfl).2.call (hs rfl).1 hcall
  | start command =>
    obtain ⟨⟨answer, t⟩, hstart, heq⟩ := Option.map_eq_some_iff.mp h
    cases heq
    rw [Reply.failedAt?_ofDebug fun _ => rfl]
    exact (hs rfl).2.start hstart
  | pause =>
    cases h
    exact (hs rfl).2.setStepping true

end Operations

end Stepper

/-! ## Sessions -/

/-- The operations of a stepper, and of the debugger within those that go by source lines. Only
programs without patches and without traps of their own are loaded. -/
def Operation.IsStepping : Operation → Prop
  | .stepper (.load program) => program.IsPlain ∧ program.TrapFree
  | .stepper _ => True
  | .debugger (.setLine _) | .debugger (.removeLine _) => True
  | _ => False

/-- What a session of a stepper keeps: a sound debuggee, no plan between commands and, unless a run
has failed since the last load, armed breakpoints. -/
structure Stepper.Kept (failed : Bool) (s : Stepper) : Prop where
  sound : s.vm.IsSound
  plan : s.plan = none
  armed : failed = false → s.Armed

theorem Stepper.IsNew.kept {s : Stepper} (h : s.IsNew) : s.Kept false := by
  have hvm : s.vm = {} := h.debugger.vm
  refine ⟨⟨?_, ?_⟩, h.plan, fun _ => ⟨h.debugger.covered, fun place hplace => ?_⟩⟩
  · rw [hvm]
    nofun
  · rw [hvm]
    nofun
  · have hnowhere : s.debugger.vm.hasAddress place = false := by
      rw [h.debugger.vm]
      rfl
    rw [Debugger.isBreakpoint, hnowhere, Bool.and_false] at hplace
    cases hplace

theorem Stepper.Kept.perform {s s' : Stepper} {failed : Bool} {fuel : Nat}
    {operation : StepperOperation} {reply : Reply} (h : s.Kept failed)
    (hstepping : (Operation.stepper operation).IsStepping)
    (hperform : s.perform fuel operation = some (reply, s')) :
    s'.Kept (!(Operation.stepper operation).loads && (failed || reply.isFault)) := by
  have hsound : s'.vm.IsSound := by
    apply isSound_perform _ h.sound hperform
    rintro program rfl
    exact hstepping.2
  have hplain (program : Program) (hload : operation = .load program) : program.IsPlain := by
    subst hload
    exact hstepping.1
  refine ⟨hsound, plan_perform (fun _ => h.plan) hperform, fun hfine => ?_⟩
  cases operation with
  | load program =>
    cases hperform
    exact armed_load s (hplain program rfl)
  | _ =>
    obtain ⟨hfailed, hreply⟩ := Bool.or_eq_false_iff.mp hfine
    have hafter := armedAfter_perform (fun _ => ⟨h.plan, h.armed hfailed⟩) hplain hperform
    rw [Reply.isFault_eq, Option.isSome_eq_false_iff, Option.isNone_iff_eq_none] at hreply
    rwa [hreply] at hafter

/-- Every session of a stepper keeps its invariant. -/
theorem Host.Session.kept {s₀ : Stepper} {failed : Bool} {host : Host} (hnew : s₀.IsNew)
    (hsession : Session Operation.IsStepping (.stepper s₀) failed host) :
    ∃ s, host = .stepper s ∧ s.Kept failed := by
  induction hsession with
  | new => exact ⟨s₀, rfl, hnew.kept⟩
  | @perform failed host host' fuel operation reply before hstepping h ih =>
    obtain ⟨s, rfl, hs⟩ := ih
    cases operation with
    | vm operation => exact hstepping.elim
    | wrap => exact hstepping.elim
    | unwrap => exact hstepping.elim
    | stepper operation =>
      obtain ⟨⟨reply, s'⟩, hperform, heq⟩ := Option.map_eq_some_iff.mp h
      cases heq
      exact ⟨s', rfl, hs.perform hstepping hperform⟩
    | debugger operation =>
      obtain ⟨⟨reply, d⟩, hperform, heq⟩ := Option.map_eq_some_iff.mp h
      cases heq
      cases operation with
      | setLine line =>
        cases hperform
        refine ⟨_, rfl, ?_, hs.plan, fun hfine => ?_⟩
        · exact hs.sound.of_sameCall (s.debugger.sameCall_setLine line)
        · exact (hs.armed (Bool.or_eq_false_iff.mp hfine).1).setLine line
      | removeLine line =>
        cases hperform
        refine ⟨_, rfl, ?_, hs.plan, fun hfine => ?_⟩
        · exact hs.sound.of_sameCall (s.debugger.sameCall_removeLine line)
        · exact (hs.armed (Bool.or_eq_false_iff.mp hfine).1).removeLine line
      | _ => exact hstepping.elim

end BytecodeDebugger
