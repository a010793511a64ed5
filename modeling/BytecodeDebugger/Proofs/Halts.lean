import BytecodeDebugger.Proofs.Breakpoints
import BytecodeDebugger.Stepper.Basic

/-!
# What a stepper does at a halt

The parts of a stepper that run nothing: taking note of a halt, of the end of a call and of an error,
arming a location again, and closing a plan. None of them touches the call in progress, and only the
location halted at and the location left change in the patches. Only closing a plan concerns the
command in progress.
-/

namespace BytecodeDebugger

namespace Stepper

open Debuggee (SameCall)

/-! ## The call in progress -/

@[simp]
theorem debugger_setPaused (s : Stepper) (paused : Bool) :
    (s.setPaused paused).debugger = s.debugger := by
  rw [setPaused]
  split <;> rfl

@[simp]
theorem vm_setPaused (s : Stepper) (paused : Bool) : (s.setPaused paused).vm = s.vm :=
  congrArg Debugger.vm (s.debugger_setPaused paused)

@[simp]
theorem plan_setPaused (s : Stepper) (paused : Bool) : (s.setPaused paused).plan = s.plan := by
  rw [setPaused]
  split <;> rfl

@[simp]
theorem onBreakpoint_setPaused (s : Stepper) (paused : Bool) :
    (s.setPaused paused).onBreakpoint = s.onBreakpoint := by
  rw [setPaused]
  split <;> rfl

@[simp]
theorem debugger_noteFinished (s : Stepper) : s.noteFinished.debugger = s.debugger :=
  debugger_setPaused _ _

@[simp]
theorem vm_noteFinished (s : Stepper) : s.noteFinished.vm = s.vm :=
  vm_setPaused _ _

@[simp]
theorem debugger_noteError (s : Stepper) : s.noteError.debugger = s.debugger := by
  rw [noteError]
  split
  · rfl
  · exact s.debugger_noteFinished

@[simp]
theorem vm_noteError (s : Stepper) : s.noteError.vm = s.vm :=
  congrArg Debugger.vm s.debugger_noteError

@[simp]
theorem debugger_complete (starting : Bool) (frame : Option FrameInfo) (s : Stepper) :
    (s.complete starting frame).debugger = s.debugger := by
  cases starting <;> cases frame <;> cases hplan : s.plan.isSome <;> simp [complete, hplan]

@[simp]
theorem vm_complete (starting : Bool) (frame : Option FrameInfo) (s : Stepper) :
    (s.complete starting frame).vm = s.vm :=
  congrArg Debugger.vm (s.debugger_complete starting frame)

theorem sameCall_noteBreak (s : Stepper) : SameCall s.vm s.noteBreak.vm := by
  simp only [noteBreak, vm_setPaused, debugger_setPaused]
  split
  · rw [vm_setPaused]
    exact .refl s.vm
  · split
    · exact (s.debugger.sameCall_restoreFrame _).trans (Debuggee.sameCall_setStepping _ true)
    · exact s.debugger.sameCall_restoreFrame _

theorem sameCall_rearm (s : Stepper) (origin : Option FrameInfo) :
    SameCall s.vm (s.rearm origin).vm := by
  cases origin with
  | none => exact .refl s.vm
  | some frame => exact s.debugger.sameCall_rearm frame

/-! ## The command in progress -/

/-- The command in progress and what is not about pauses are the same for two steppers. -/
structure SameCommand (s s' : Stepper) : Prop where
  plan : s'.plan = s.plan
  state : s'.state = s.state
  breaks : s'.breaks = s.breaks
  subscribers : s'.pauses.subscribers = s.pauses.subscribers

namespace SameCommand

theorem refl (s : Stepper) : SameCommand s s :=
  ⟨rfl, rfl, rfl, rfl⟩

theorem trans {s₁ s₂ s₃ : Stepper} (h : SameCommand s₁ s₂) (h' : SameCommand s₂ s₃) :
    SameCommand s₁ s₃ :=
  ⟨h'.plan.trans h.plan, h'.state.trans h.state, h'.breaks.trans h.breaks,
    h'.subscribers.trans h.subscribers⟩

end SameCommand

theorem sameCommand_setPaused (s : Stepper) (paused : Bool) :
    s.SameCommand (s.setPaused paused) := by
  rw [setPaused]
  split
  · exact .refl s
  · exact ⟨rfl, rfl, rfl, rfl⟩

/-- Taking note of a halt records a pause, and nothing else that the subscribers hear of. -/
theorem sameCommand_noteBreak (s : Stepper) : s.SameCommand s.noteBreak := by
  have hpaused := s.sameCommand_setPaused true
  simp only [noteBreak]
  split
  · exact hpaused
  · split <;> exact hpaused.trans ⟨rfl, rfl, rfl, rfl⟩

theorem sameCommand_noteFinished (s : Stepper) : s.SameCommand s.noteFinished := by
  have hnoted : s.SameCommand { s with onBreakpoint := false } := ⟨rfl, rfl, rfl, rfl⟩
  exact hnoted.trans (sameCommand_setPaused _ false)

theorem sameCommand_setStepping (s : Stepper) (on : Bool) : s.SameCommand (s.setStepping on) :=
  ⟨rfl, rfl, rfl, rfl⟩

theorem sameCommand_rearm (s : Stepper) (origin : Option FrameInfo) :
    s.SameCommand (s.rearm origin) := by
  cases origin <;> exact ⟨rfl, rfl, rfl, rfl⟩

end Stepper

end BytecodeDebugger
