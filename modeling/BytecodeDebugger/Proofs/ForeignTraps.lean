import BytecodeDebugger.Proofs.Resumption
import BytecodeDebugger.Proofs.Session

/-!
# Every trap belongs to a breakpoint

A debugger patches the program of its debuggee at its breakpoints and nowhere else: after every
operation each patched location is in the set of breakpoints. The one trap that a debugger puts
elsewhere, the temporary one of `stepNext`, is taken out before the command is answered.

## Implementation notes

The relation is between the patches and the set, so whatever takes traps out preserves it. The only
operations to look at are those that patch: arming, setting a breakpoint, loading and `stepNext`.
-/

namespace BytecodeDebugger

namespace Debugger

variable {d d' : Debugger} {fuel : Nat}

/-- A trap is at a breakpoint of the loaded program. -/
theorem Covered.isBreakpoint {place : Location} (h : d.Covered)
    (hplace : d.vm.isPatched place = true) : d.isBreakpoint place = true := by
  rw [Debugger.isBreakpoint, Bool.and_eq_true_iff]
  exact ⟨h place hplace, Debuggee.hasAddress_of_isPatched hplace⟩

/-- A larger set covers fewer traps. -/
theorem Covered.mono (h : d.Covered)
    (hset : ∀ place, d.hasBreakpoint place = true → d'.hasBreakpoint place = true)
    (hpatched : ∀ place, d'.vm.isPatched place = true → d.vm.isPatched place = true) :
    d'.Covered := by
  intro place hplace
  exact hset place (h place (hpatched place hplace))

theorem Covered.of_resumed (h : d.Covered) (hresumed : d.Resumed d') : d'.Covered := by
  apply h.mono
  · intro place hplace
    rwa [hresumed.hasBreakpoint]
  · intro place hplace
    rw [hresumed.isPatched] at hplace
    exact (Bool.and_eq_true_iff.mp hplace).1

theorem Covered.restoreFrame (h : d.Covered) (frame : FrameInfo) :
    (d.restoreFrame frame).2.Covered := by
  apply h.mono
  · intro place hplace
    rwa [hasBreakpoint, breakpoints_restoreFrame]
  · intro place hplace
    rw [isPatched_restoreFrame] at hplace
    exact (Bool.and_eq_true_iff.mp hplace).1

theorem Covered.rearm (h : d.Covered) (frame : FrameInfo) : (d.rearm frame).Covered := by
  intro place hplace
  rw [hasBreakpoint, breakpoints_rearm]
  rw [isPatched_rearm, Bool.or_eq_true_iff] at hplace
  rcases hplace with hbefore | harmed
  · exact h place hbefore
  · exact (Bool.and_eq_true_iff.mp (Bool.and_eq_true_iff.mp harmed).2).1

theorem Covered.rearmAll (h : d.Covered) : d.rearmAll.Covered := by
  intro place hplace
  rw [hasBreakpoint, breakpoints_rearmAll]
  rw [isPatched_rearmAll, Bool.or_eq_true_iff] at hplace
  rcases hplace with hbefore | harmed
  · exact h place hbefore
  · exact (Bool.and_eq_true_iff.mp harmed).1

theorem Covered.set (h : d.Covered) (place : Location) : (d.set place).Covered := by
  intro other hother
  rw [hasBreakpoint_set, Bool.or_eq_true_iff]
  rw [isPatched_set, Bool.or_eq_true_iff] at hother
  rcases hother with hbefore | hnow
  · exact .inr (h other hbefore)
  · exact .inl (Bool.and_eq_true_iff.mp hnow).1

theorem Covered.remove (h : d.Covered) (place : Location) : (d.remove place).Covered := by
  intro other hother
  rw [hasBreakpoint_remove]
  rw [isPatched_remove, Bool.and_eq_true_iff] at hother
  rw [Bool.and_eq_true_iff]
  exact ⟨hother.1, h other hother.2⟩

theorem Covered.setLine (h : d.Covered) (line : SourceLine) : (d.setLine line).2.Covered :=
  setLine_induction line (fun _ => h) fun _ place he => he.set place

theorem Covered.removeLine (h : d.Covered) (line : SourceLine) : (d.removeLine line).Covered :=
  removeLine_induction line (fun _ => h) fun _ place he => he.remove place

theorem covered_load (d : Debugger) {program : Program} (hplain : program.IsPlain) :
    (d.load program).2.Covered := by
  intro place hplace
  rw [isPatched_load d hplain] at hplace
  exact (Bool.and_eq_true_iff.mp hplace).1

/-! ## Stepping commands -/

theorem Covered.stepInstruction {answer : Except DebugError StepOutcome} (h : d.Covered)
    (hstep : d.stepInstruction fuel = some (answer, d')) : d'.Covered := by
  rw [Debugger.stepInstruction] at hstep
  split at hstep
  · cases hstep
    exact h
  · rename_i origin horigin
    obtain ⟨⟨resumed, e⟩, hresume, heq⟩ := Option.map_eq_some_iff.mp hstep
    have hbefore : ((d.restoreFrame origin).2.setStepping true).Covered := h.restoreFrame origin
    have he : e.Covered := hbefore.of_resumed (resumed_resume hresume)
    cases resumed with
    | error error =>
      cases heq
      exact he
    | ok outcome =>
      cases heq
      exact he.rearm origin

theorem Covered.stepToStopPoint {answer : Except DebugError StepOutcome} (h : d.Covered)
    (hstep : d.stepToStopPoint fuel = some (answer, d')) : d'.Covered := by
  induction fuel generalizing d with
  | zero => cases hstep
  | succ fuel ih =>
    rw [Debugger.stepToStopPoint] at hstep
    split at hstep
    · cases hstep
    · rename_i error e hone
      cases hstep
      exact h.stepInstruction hone
    · rename_i outcome e hone
      split at hstep
      · cases hstep
        exact h.stepInstruction hone
      · exact ih (h.stepInstruction hone) hstep

/-- The temporary trap of running over a call is gone however the run ended: it was there before, or
it is taken out. -/
theorem Covered.runOverCall {origin : FrameInfo} {stepped : StepOutcome}
    {answer : Except DebugError StepOutcome} (h : d.Covered)
    (hover : d.runOverCall fuel origin stepped = some (answer, d')) : d'.Covered := by
  cases htarget : d.overTarget? origin with
  | none =>
    rw [Debugger.runOverCall, htarget] at hover
    cases hover
    exact h
  | some target =>
    rw [runOverCall_eq _ _ htarget] at hover
    obtain ⟨⟨resumed, e⟩, hresume, heq⟩ := Option.map_eq_some_iff.mp hover
    have hresumed := resumed_resume hresume
    have harmed (place : Location) (hplace : d.rearmAll.vm.isPatched place = true) :
        e.hasBreakpoint place = true := by
      rw [hresumed.hasBreakpoint]
      exact h.rearmAll place hplace
    have hafter (place : Location) (hplace : e.vm.isPatched place = true) :
        d.rearmAll.vm.isPatched place = true ∨
          target = place ∧ d.rearmAll.vm.hasAddress target = true := by
      rw [hresumed.isPatched, Bool.and_eq_true_iff] at hplace
      have hpatch := (d.rearmAll.vm.isPatched_patch target place).symm.trans hplace.1
      simpa using hpatch
    have hinstalled : (d.rearmAll.patch target).1 =
        (d.rearmAll.vm.hasAddress target && !d.rearmAll.vm.isPatched target) :=
      d.rearmAll.vm.patch_fst target
    cases heq
    split
    · intro place hplace
      have hrestore := (e.vm.isPatched_restore target place).symm.trans hplace
      rw [Bool.and_eq_true_iff, decide_eq_true_iff] at hrestore
      rcases hafter place hrestore.2 with hbefore | ⟨heq, -⟩
      · exact harmed place hbefore
      · exact absurd heq hrestore.1
    · rename_i hleft
      intro place hplace
      rcases hafter place hplace with hbefore | ⟨rfl, haddress⟩
      · exact harmed place hbefore
      · rw [hinstalled, haddress, Bool.true_and] at hleft
        exact harmed target (by simpa using hleft)

theorem covered_reported {command : Answer StepOutcome} {answer : Except DebugError StepOutcome}
    (hcommand : ∀ answer d', command = some (answer, d') → d'.Covered)
    (h : reported command = some (answer, d')) : d'.Covered := by
  obtain ⟨⟨answer, e⟩, rfl, heq⟩ := Option.map_eq_some_iff.mp h
  have he := hcommand answer e rfl
  cases answer with
  | error error =>
    cases heq
    exact he
  | ok outcome =>
    cases heq
    cases outcome <;> exact he

theorem Covered.stepInto {answer : Except DebugError StepOutcome} (h : d.Covered)
    (hstep : d.stepInto fuel = some (answer, d')) : d'.Covered :=
  covered_reported (fun _ _ => h.stepToStopPoint) hstep

theorem Covered.stepNext {answer : Except DebugError StepOutcome} (h : d.Covered)
    (hstep : d.stepNext fuel = some (answer, d')) : d'.Covered := by
  rw [Debugger.stepNext] at hstep
  split at hstep
  · cases hstep
    exact h
  · simp only at hstep
    split at hstep
    · cases hstep
    · rename_i error e hone
      cases hstep
      exact h.stepInstruction hone
    · rename_i outcome e hone
      have he := h.stepInstruction hone
      refine covered_reported (fun answer d' hcommand => ?_) hstep
      split at hcommand
      · exact he.runOverCall hcommand
      · split at hcommand
        · cases hcommand
          exact he
        · exact he.stepToStopPoint hcommand

theorem Covered.proceed {answer : Except DebugError StepOutcome} (h : d.Covered)
    (hstep : d.proceed fuel = some (answer, d')) : d'.Covered := by
  rw [Debugger.proceed] at hstep
  split at hstep
  · cases hstep
  · rename_i error e hone
    cases hstep
    exact h.stepInstruction hone
  · rename_i outcome e hone
    have he := h.stepInstruction hone
    refine covered_reported (fun answer d' hcommand => ?_) hstep
    split at hcommand
    · have hbefore : (e.rearmAll.setStepping false).Covered := he.rearmAll
      exact hbefore.of_resumed (resumed_resume hcommand)
    · cases hcommand
      exact he

/-- A debuggee with no more traps than before is still covered. -/
theorem Covered.withVm {vm : Debuggee} (h : d.Covered)
    (hpatched : ∀ place, vm.isPatched place = true → d.vm.isPatched place = true) :
    ({ d with vm } : Debugger).Covered :=
  h.mono (fun _ hplace => hplace) hpatched

theorem Covered.call {name : String} {args : Array Int32} {answer : Except DebugError Stop}
    (h : d.Covered) (hcall : d.call fuel name args = some (answer, d')) : d'.Covered := by
  obtain ⟨⟨run, vm⟩, hrun, heq⟩ := Option.map_eq_some_iff.mp hcall
  have hsame := Debuggee.sameProgram_call hrun
  have hvm : ({ d with vm } : Debugger).Covered := by
    apply h.withVm
    intro place hplace
    rwa [hsame.isPatched] at hplace
  match run with
  | .error error =>
    cases heq
    exact hvm
  | .ok (.finished value) =>
    cases heq
    exact hvm
  | .ok .paused =>
    simp only at heq
    split at heq <;> cases heq <;> exact hvm

end Debugger

namespace Stepper

theorem preserved_covered : Preserved Debugger.Covered where
  resume h hresume := h.of_resumed (resumed_resume hresume).debugger
  restoreFrame frame h := h.restoreFrame frame
  rearm frame h := h.rearm frame
  setStepping _ h := h
  call h hcall := h.withVm fun place hplace => by
    rwa [(Debuggee.sameProgram_call hcall).isPatched] at hplace

end Stepper

/-! ## Sessions -/

/-- The operations that patch at breakpoints only: all but patching at a given location, loading a
program that has patches, and giving the debugger up. -/
def Operation.KeepsToBreakpoints : Operation → Prop
  | .vm (.load program) | .debugger (.load program) | .stepper (.load program) => program.IsPlain
  | .debugger (.patch _) | .unwrap => False
  | _ => True

variable {fuel : Nat} {reply : Reply}

/-- No operation of a debuggee adds a trap. -/
theorem Debuggee.isPatched_of_perform {vm vm' : Debuggee} {operation : VmOperation}
    (hkeeps : (Operation.vm operation).KeepsToBreakpoints)
    (h : vm.perform fuel operation = some (reply, vm')) (place : Location)
    (hplace : vm'.isPatched place = true) : vm.isPatched place = true := by
  cases operation with
  | load program =>
    cases h
    have hfree : program.isPatched place = false := hkeeps place
    have hpatched : program.isPatched place = true := hplace
    rw [hfree] at hpatched
    cases hpatched
  | call name args =>
    obtain ⟨⟨answer, vm⟩, hcall, heq⟩ := Option.map_eq_some_iff.mp h
    cases heq
    rwa [(sameProgram_call hcall).isPatched] at hplace
  | resume =>
    obtain ⟨⟨answer, vm⟩, hresume, heq⟩ := Option.map_eq_some_iff.mp h
    cases heq
    rwa [(resume_rest hresume).1.isPatched] at hplace
  | setStepping on =>
    cases h
    exact hplace
  | setHandler =>
    cases h
    have hprogram : vm.setHandler.2.program = vm.program := by
      rw [setHandler]
      split <;> rfl
    have hpatched : vm.setHandler.2.isPatched place = true := hplace
    rwa [isPatched, hprogram] at hpatched
  | clearHandler =>
    cases h
    exact hplace

theorem Debugger.Covered.perform {d d' : Debugger} {operation : DebuggerOperation}
    (hkeeps : (Operation.debugger operation).KeepsToBreakpoints) (hd : d.Covered)
    (h : d.perform fuel operation = some (reply, d')) : d'.Covered := by
  cases operation with
  | load program =>
    cases h
    exact d.covered_load hkeeps
  | set place =>
    cases h
    exact hd.set place
  | remove place =>
    cases h
    exact hd.remove place
  | setLine line =>
    cases h
    exact hd.setLine line
  | removeLine line =>
    cases h
    exact hd.removeLine line
  | patch place => exact hkeeps.elim
  | restoreFrame frame =>
    cases h
    exact hd.restoreFrame frame
  | rearm frame =>
    cases h
    exact hd.rearm frame
  | rearmAll =>
    cases h
    exact hd.rearmAll
  | call name args =>
    obtain ⟨⟨answer, e⟩, hcall, heq⟩ := Option.map_eq_some_iff.mp h
    cases heq
    exact hd.call hcall
  | stepInto =>
    obtain ⟨⟨answer, e⟩, hstep, heq⟩ := Option.map_eq_some_iff.mp h
    cases heq
    exact hd.stepInto hstep
  | stepNext =>
    obtain ⟨⟨answer, e⟩, hstep, heq⟩ := Option.map_eq_some_iff.mp h
    cases heq
    exact hd.stepNext hstep
  | proceed =>
    obtain ⟨⟨answer, e⟩, hstep, heq⟩ := Option.map_eq_some_iff.mp h
    cases heq
    exact hd.proceed hstep
  | pause =>
    cases h
    exact hd

theorem Stepper.covered_perform {s s' : Stepper} {operation : StepperOperation}
    (hkeeps : (Operation.stepper operation).KeepsToBreakpoints) (hs : s.debugger.Covered)
    (h : s.perform fuel operation = some (reply, s')) : s'.debugger.Covered := by
  cases operation with
  | load program =>
    cases h
    rw [load, debugger_setPaused]
    exact s.debugger.covered_load hkeeps
  | set place =>
    cases h
    exact hs.set place
  | remove place =>
    cases h
    exact hs.remove place
  | call name args =>
    obtain ⟨⟨answer, t⟩, hcall, heq⟩ := Option.map_eq_some_iff.mp h
    cases heq
    exact preserved_covered.ofCall hs hcall
  | start command =>
    obtain ⟨⟨answer, t⟩, hstart, heq⟩ := Option.map_eq_some_iff.mp h
    cases heq
    exact preserved_covered.start hs hstart
  | pause =>
    cases h
    exact hs

/-- A host with a debugger, whose breakpoints account for every trap. -/
def Host.Covered (host : Host) : Prop :=
  ∃ d, host.debugger? = some d ∧ d.Covered

theorem Host.Covered.perform {host host' : Host} {operation : Operation}
    (hkeeps : operation.KeepsToBreakpoints) (hhost : host.Covered)
    (h : host.perform fuel operation = some (reply, host')) : host'.Covered := by
  obtain ⟨d, hdebugger, hd⟩ := hhost
  cases performed_of_perform h with
  | vm hperform =>
    cases host with
    | debuggee vm => cases hdebugger
    | debugger d =>
      cases hdebugger
      exact ⟨_, rfl, hd.withVm (Debuggee.isPatched_of_perform hkeeps hperform)⟩
    | stepper s =>
      cases hdebugger
      exact ⟨_, rfl, hd.withVm (Debuggee.isPatched_of_perform hkeeps hperform)⟩
  | debugger hperform =>
    cases hdebugger
    exact ⟨_, rfl, hd.perform hkeeps hperform⟩
  | within hperform =>
    cases hdebugger
    exact ⟨_, rfl, hd.perform hkeeps hperform⟩
  | stepper hperform =>
    cases hdebugger
    exact ⟨_, rfl, Stepper.covered_perform hkeeps hd hperform⟩
  | wrap =>
    cases host with
    | debuggee vm => cases hdebugger
    | debugger d =>
      cases hdebugger
      exact ⟨d, rfl, hd⟩
    | stepper s =>
      cases hdebugger
      exact ⟨s.debugger, rfl, hd⟩
  | unwrap d => exact hkeeps.elim
  | unavailable => exact ⟨d, hdebugger, hd⟩

theorem Debugger.IsNew.covered {d : Debugger} (h : d.IsNew) : d.Covered := by
  intro place hplace
  rw [h.vm] at hplace
  cases hplace

/-- In every session over a new debugger that neither patches by hand nor gives the debugger up, each
patched location of the loaded program is in the set of breakpoints. -/
theorem Host.Session.no_foreign_trap {d : Debugger} {failed : Bool} {host : Host}
    (hnew : d.IsNew)
    (hsession : Session Operation.KeepsToBreakpoints (.debugger d) failed host) :
    ∃ e, host.debugger? = some e ∧
      ∀ program place, host.vm.program = some program → place ∈ program.patchedLocations →
        e.hasBreakpoint place = true := by
  have hcovered : host.Covered := by
    induction hsession with
    | new => exact ⟨d, rfl, hnew.covered⟩
    | perform before hpermitted h ih => exact ih.perform hpermitted h
  obtain ⟨e, he, hcovers⟩ := hcovered
  have hvm : host.vm = e.vm := by
    cases host <;> cases he <;> rfl
  refine ⟨e, he, fun program place hprogram hplace => hcovers place ?_⟩
  rw [← hvm, Debuggee.isPatched, hprogram, Option.any_some]
  exact Program.mem_patchedLocations.mp hplace

/-- A session that loads a sum, sets a breakpoint on the addition, calls and steps to the end. -/
theorem Host.Session.no_foreign_trap_sum :
    ∃ host e, Session Operation.KeepsToBreakpoints (.debugger {}) false host ∧
      host.debugger? = some e ∧ host.vm.state = .finished ∧
      ∀ program place, host.vm.program = some program → place ∈ program.patchedLocations →
        e.hasBreakpoint place = true := by
  have hloaded : Session Operation.KeepsToBreakpoints (.debugger {}) false
      (.debugger (({} : Debugger).load .sum).2) :=
    .perform .new (show Program.sum.IsPlain by decide)
      (show (Host.debugger {}).perform 0 (.debugger (.load .sum)) = some _ from rfl)
  have hset := hloaded.perform (by exact trivial)
    (show Host.perform 0 _ (.debugger (.set ⟨0, 2⟩)) = some _ from rfl)
  have hcalled := hset.perform (by exact trivial)
    (show Host.perform 9 _ (.debugger (.call "sum" #[])) = some _ from rfl)
  have hfinished := hcalled.perform (by exact trivial)
    (show Host.perform 9 _ (.debugger .stepNext) = some _ from rfl)
  obtain ⟨e, he, hcovers⟩ := Host.Session.no_foreign_trap ⟨rfl, rfl, rfl⟩ hfinished
  exact ⟨_, e, hfinished, he, rfl, hcovers⟩

end BytecodeDebugger
