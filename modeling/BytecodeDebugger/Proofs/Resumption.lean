import BytecodeDebugger.Debugger.Stepping
import BytecodeDebugger.Proofs.Halts

/-!
# What resuming a call does to the patches

A debugger and a stepper resume a call in the same way: the debuggee runs, and where it halts the
displaced instruction is put back. So the patched locations after the request are those before it,
less the one halted at. This holds however the request ended, also by a fault or an error, since
then there is no location halted at.
-/

namespace BytecodeDebugger

namespace DebugError

/-- The end of a call that an error states. -/
def ending? : DebugError → Option Ending
  | .run (.fault place fault) => some (.faulted place fault)
  | _ => none

end DebugError

namespace Debugger

/-- What resuming a call leaves alone, and what it does to the patched locations. -/
structure Resumed (d d' : Debugger) : Prop where
  breakpoints : d'.breakpoints = d.breakpoints
  plain : d'.vm.plain? = d.vm.plain?
  programId : d'.vm.programId = d.vm.programId
  isPatched : ∀ place, d'.vm.isPatched place =
    (d.vm.isPatched place && decide (d'.vm.haltedAt? ≠ some place))

variable {d d' : Debugger} {fuel : Nat}

theorem Resumed.hasBreakpoint (h : d.Resumed d') (place : Location) :
    d'.hasBreakpoint place = d.hasBreakpoint place := by
  rw [Debugger.hasBreakpoint, h.breakpoints, Debugger.hasBreakpoint]

theorem Resumed.isBreakpoint (h : d.Resumed d') (place : Location) :
    d'.isBreakpoint place = d.isBreakpoint place := by
  have haddress : d'.vm.hasAddress place = d.vm.hasAddress place := by
    rw [Debuggee.hasAddress, h.plain, Debuggee.hasAddress]
  rw [Debugger.isBreakpoint, h.hasBreakpoint, haddress, Debugger.isBreakpoint]

theorem Resumed.setStepping (h : d.Resumed d') (on : Bool) : d.Resumed (d'.setStepping on) :=
  ⟨h.breakpoints, h.plain, h.programId, h.isPatched⟩

/-- A run request that left no call halted changed no patch. -/
theorem resumed_of_not_isPaused {vm : Debuggee} (hsame : Debuggee.SameProgram d.vm vm)
    (hpaused : vm.isPaused = false) : d.Resumed { d with vm } := by
  refine ⟨rfl, hsame.plain, hsame.programId, fun place => ?_⟩
  have hnowhere : ({ d with vm } : Debugger).vm.haltedAt? = none :=
    Debuggee.haltedAt?_of_not_isPaused hpaused
  rw [hnowhere, hsame.isPatched]
  simp

/-- A run request that halted the call changed no patch but the one halted at, once that is taken
out. -/
theorem resumed_restoreFrame {vm : Debuggee} {place : Location}
    (hsame : Debuggee.SameProgram d.vm vm) (hhalted : vm.haltedAt? = some place) :
    d.Resumed
      (({ d with vm } : Debugger).restoreFrame ⟨vm.programId, place.function, place.address⟩).2 := by
  let frame : FrameInfo := ⟨vm.programId, place.function, place.address⟩
  have hcall := ({ d with vm } : Debugger).sameCall_restoreFrame frame
  refine ⟨breakpoints_restoreFrame _ _, hcall.plain.trans hsame.plain,
    hcall.programId.trans hsame.programId, fun other => ?_⟩
  have hat : (({ d with vm } : Debugger).restoreFrame frame).2.vm.haltedAt? = some place :=
    hcall.haltedAt?.trans hhalted
  have hcurrent : ({ d with vm } : Debugger).isCurrent frame = true := by
    simp [isCurrent, frame]
  have hlocation : frame.location = place := rfl
  rw [hat, isPatched_restoreFrame, hcurrent, hlocation, hsame.isPatched]
  simp

theorem resumed_resume {answer : Except DebugError StepOutcome}
    (h : d.resume fuel = some (answer, d')) : d.Resumed d' := by
  obtain ⟨⟨run, vm⟩, hrun, heq⟩ := Option.map_eq_some_iff.mp h
  obtain ⟨hsame, ⟨rfl, place, hplace⟩ | ⟨hanswer, hpaused⟩⟩ := Debuggee.resume_rest hrun
  · simp only [Debuggee.frameInfo?_of_haltedAt? hplace] at heq
    cases heq
    exact resumed_restoreFrame hsame hplace
  · have hover := resumed_of_not_isPaused hsame hpaused
    match run with
    | .error error =>
      cases heq
      exact hover
    | .ok (.finished value) =>
      cases heq
      exact hover
    | .ok .paused => exact absurd rfl hanswer

/-- Running over a call, with its temporary trap. -/
theorem runOverCall_eq {origin : FrameInfo} {target : Location} (fuel : Nat) (stepped : StepOutcome)
    (htarget : d.overTarget? origin = some target) :
    d.runOverCall fuel origin stepped =
      (((d.rearmAll.patch target).2.setStepping false).resume fuel).map fun (answer, e) =>
        (answer, if (d.rearmAll.patch target).1 then (e.restore target).2 else e) := by
  rw [runOverCall, htarget]

end Debugger

namespace Stepper

variable {s s' : Stepper} {fuel : Nat}

/-- What resuming a call does to a stepper: to its debugger, to its plan, and to the note whether
the halt is on a breakpoint. -/
structure Resumed (s s' : Stepper) : Prop where
  debugger : s.debugger.Resumed s'.debugger
  plan : s'.plan = s.plan
  onBreakpoint : s'.onBreakpoint = s'.vm.haltedAt?.any s.vm.isPatched

/-- At a halt, the displaced instruction is put back, and it is noted whether there was one. -/
theorem noteBreak_eq {frame : FrameInfo} (hframe : s.vm.frameInfo? 0 = some frame) :
    s.noteBreak.plan = s.plan ∧
      s.noteBreak.onBreakpoint = (s.debugger.restoreFrame frame).1 ∧
      ∃ on, s.noteBreak.debugger = (s.debugger.restoreFrame frame).2.setStepping on := by
  simp only [noteBreak, vm_setPaused, hframe, debugger_setPaused]
  split
  · exact ⟨plan_setPaused s true, rfl, true, rfl⟩
  · exact ⟨plan_setPaused s true, rfl, (s.debugger.restoreFrame frame).2.vm.stepping, rfl⟩

theorem onBreakpoint_noteFinished (s : Stepper) : s.noteFinished.onBreakpoint = false :=
  onBreakpoint_setPaused _ _

theorem plan_noteFinished (s : Stepper) : s.noteFinished.plan = s.plan :=
  plan_setPaused _ _

theorem noteError_of_not_isPaused (h : s.vm.isPaused = false) : s.noteError = s.noteFinished := by
  rw [noteError, h]
  rfl

theorem resumed_noteFinished {vm : Debuggee} (hsame : Debuggee.SameProgram s.vm vm)
    (hpaused : vm.isPaused = false) : s.Resumed (s.withVm vm).noteFinished := by
  refine ⟨?_, plan_noteFinished _, ?_⟩
  · rw [debugger_noteFinished]
    exact Debugger.resumed_of_not_isPaused hsame hpaused
  · have hnowhere : (s.withVm vm).vm.haltedAt? = none := Debuggee.haltedAt?_of_not_isPaused hpaused
    rw [onBreakpoint_noteFinished, vm_noteFinished, hnowhere]
    rfl

theorem resumed_noteBreak {vm : Debuggee} {place : Location}
    (hsame : Debuggee.SameProgram s.vm vm) (hhalted : vm.haltedAt? = some place) :
    s.Resumed (s.withVm vm).noteBreak := by
  obtain ⟨hplan, hflag, on, hdebugger⟩ := noteBreak_eq (s := s.withVm vm)
    (Debuggee.frameInfo?_of_haltedAt? hhalted)
  have hat : (s.withVm vm).noteBreak.vm.haltedAt? = some place :=
    (sameCall_noteBreak (s.withVm vm)).haltedAt?.trans hhalted
  refine ⟨hdebugger ▸ (Debugger.resumed_restoreFrame hsame hhalted).setStepping on, hplan, ?_⟩
  have hpatched : vm.isPatched place = s.vm.isPatched place := hsame.isPatched place
  have hcurrent : (s.withVm vm).debugger.isCurrent
      ⟨(s.withVm vm).vm.programId, place.function, place.address⟩ = true :=
    beq_self_eq_true _
  rw [hflag, hat, Option.any_some, ← hpatched, Debugger.restoreFrame_fst, hcurrent, Bool.true_and]
  rfl

theorem resumed_resume {answer : Except DebugError Bool} (h : s.resume fuel = some (answer, s')) :
    s.Resumed s' := by
  simp only [resume, vm_setPaused] at h
  obtain ⟨⟨run, vm⟩, hrun, heq⟩ := Option.map_eq_some_iff.mp h
  have hnoted {t : Stepper} (ht : (s.setPaused false).Resumed t) : s.Resumed t := by
    refine ⟨?_, ht.plan.trans (plan_setPaused s false), ?_⟩
    · rw [← s.debugger_setPaused false]
      exact ht.debugger
    · rw [← s.vm_setPaused false]
      exact ht.onBreakpoint
  have hsetPaused : (s.setPaused false).vm = s.vm := s.vm_setPaused false
  rw [← hsetPaused] at hrun
  obtain ⟨hsame, ⟨rfl, place, hplace⟩ | ⟨hanswer, hpaused⟩⟩ := Debuggee.resume_rest hrun
  · cases heq
    exact hnoted (resumed_noteBreak hsame hplace)
  · have hover := hnoted (resumed_noteFinished hsame hpaused)
    match run with
    | .error error =>
      cases heq
      rw [noteError_of_not_isPaused (s := (s.setPaused false).withVm vm) hpaused]
      exact hover
    | .ok (.finished value) =>
      cases heq
      exact hover
    | .ok .paused => exact absurd rfl hanswer

/-! ## What every command preserves -/

/-- A property of debuggers that holds on through all that the commands of a stepper consist of. -/
structure Preserved (P : Debugger → Prop) : Prop where
  resume : ∀ {s s' : Stepper} {fuel : Nat} {answer : Except DebugError Bool},
    P s.debugger → s.resume fuel = some (answer, s') → P s'.debugger
  call : ∀ {d : Debugger} {fuel : Nat} {name : String} {args : Array Int32}
    {answer : Except RunError Stop} {vm : Debuggee},
    P d → d.vm.call fuel name args = some (answer, vm) → P { d with vm }
  restoreFrame : ∀ {d : Debugger} (frame : FrameInfo), P d → P (d.restoreFrame frame).2
  rearm : ∀ {d : Debugger} (frame : FrameInfo), P d → P (d.rearm frame)
  setStepping : ∀ {d : Debugger} (on : Bool), P d → P (d.setStepping on)

namespace Preserved

variable {P : Debugger → Prop}

theorem noteBreak (hP : Preserved P) (hs : P s.debugger) : P s.noteBreak.debugger := by
  cases hframe : s.vm.frameInfo? 0 with
  | none =>
    simp only [Stepper.noteBreak, vm_setPaused, hframe, debugger_setPaused]
    exact hs
  | some frame =>
    obtain ⟨-, -, on, hdebugger⟩ := noteBreak_eq hframe
    rw [hdebugger]
    exact hP.setStepping on (hP.restoreFrame frame hs)

theorem runFreely {request : Request} {answer : Except DebugError Unit} (hP : Preserved P)
    (hs : P s.debugger) (h : s.runFreely fuel request = some (answer, s')) : P s'.debugger := by
  cases request with
  | step =>
    cases h
    exact hs
  | proceed =>
    obtain ⟨⟨resumed, t⟩, hresume, heq⟩ := Option.map_eq_some_iff.mp h
    have hfree : P (s.setStepping false).debugger := hP.setStepping false hs
    cases heq
    exact hP.resume hfree hresume

theorem serve {request : Request} {answer : Except DebugError Unit} (hP : Preserved P)
    (hs : P s.debugger) (h : s.serve fuel request = some (answer, s')) : P s'.debugger := by
  have hrearm {t : Stepper} (ht : P t.debugger) (origin : Option FrameInfo) :
      P (t.rearm origin).debugger := by
    cases origin with
    | none => exact ht
    | some frame => exact hP.rearm frame ht
  simp only [Stepper.serve] at h
  split at h
  · have hstepping : P (s.setStepping true).debugger := hP.setStepping true hs
    split at h
    · cases h
    · rename_i error t hresume
      cases h
      exact hP.resume hstepping hresume
    · rename_i halted t hresume
      have ht := hrearm (hP.resume hstepping hresume) (s.vm.frameInfo? 0)
      split at h
      · cases h
        exact ht
      · exact hP.runFreely ht h
  · exact hP.runFreely hs h

theorem advance {starting : Bool} {answer : Except DebugError Bool} (hP : Preserved P)
    (hs : P s.debugger) (h : s.advance starting fuel = some (answer, s')) : P s'.debugger := by
  simp only [Stepper.advance] at h
  split at h
  · cases h
    rwa [debugger_complete]
  · split at h
    · cases h
      rwa [debugger_complete]
    · rename_i request plan hnext
      obtain ⟨⟨served, t⟩, hserve, heq⟩ := Option.map_eq_some_iff.mp h
      have hactive : P { s with plan := some plan, state := .active }.debugger := hs
      cases heq
      exact hP.serve hactive hserve

/-- Serving the requests of a plan, by induction on the bound. -/
theorem drive {starting : Bool} {answer : Except DebugError Unit} (hP : Preserved P)
    (hs : P s.debugger) (h : s.drive starting fuel = some (answer, s')) : P s'.debugger := by
  induction fuel generalizing s with
  | zero => cases h
  | succ fuel ih =>
    rw [Stepper.drive] at h
    split at h
    · cases h
    · rename_i error t hadvance
      cases h
      exact hP.advance hs hadvance
    · rename_i t hadvance
      cases h
      exact hP.advance hs hadvance
    · rename_i t hadvance
      exact ih (hP.advance hs hadvance) h

theorem start {command : Command} {answer : Except DebugError Bool} (hP : Preserved P)
    (hs : P s.debugger) (h : s.start fuel command = some (answer, s')) : P s'.debugger := by
  rw [Stepper.start] at h
  split at h
  · obtain ⟨⟨driven, t⟩, hdrive, heq⟩ := Option.map_eq_some_iff.mp h
    have hstarting : P { s with plan := some { command }, state := .starting }.debugger := hs
    have ht := hP.drive hstarting hdrive
    cases driven with
    | ok value =>
      cases heq
      exact ht
    | error error =>
      cases heq
      exact ht
  · cases h
    exact hs

theorem ofCall {name : String} {args : Array Int32} {answer : Except DebugError Stop}
    (hP : Preserved P) (hs : P s.debugger) (h : s.call fuel name args = some (answer, s')) :
    P s'.debugger := by
  simp only [Stepper.call] at h
  split at h
  · cases h
  · rename_i vm hrun
    obtain ⟨⟨driven, t⟩, hdrive, heq⟩ := Option.map_eq_some_iff.mp h
    have hvm : P (s.withVm vm).debugger := hP.call hs hrun
    cases heq
    exact hP.drive (hP.noteBreak hvm) hdrive
  · rename_i value vm hrun
    cases h
    rw [debugger_noteFinished]
    exact hP.call hs hrun
  · rename_i error vm hrun
    cases h
    rw [debugger_noteError]
    exact hP.call hs hrun

end Preserved

end Stepper

end BytecodeDebugger
