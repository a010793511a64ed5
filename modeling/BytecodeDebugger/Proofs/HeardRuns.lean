import BytecodeDebugger.Proofs.ElementaryRequests
import Mathlib.Data.List.Forall2

/-!
# What the consumer of halts hears

The consumer of halts hears of each run request once: where the call is halted, what it returned, or
that it failed, which is also what the answer to the request says and what the debuggee shows after
it. Of what is done between run requests it hears nothing.

## Implementation notes

The statements do not ask for a consumer. Without one the events are those that it would have heard
of, and the log of halts stays as it is.
-/

namespace BytecodeDebugger

/-- An event says how a run request was answered, and what the debuggee shows after it. -/
inductive HaltEvent.Describes : HaltEvent → Except RunError Stop → Debuggee → Prop
  | paused {vm : Debuggee} {frame : FrameInfo} (hpaused : vm.isPaused = true)
      (hframe : vm.frameInfo? 0 = some frame) : Describes (.paused frame) (.ok .paused) vm
  | finished {vm : Debuggee} {value : Int32} (hstate : vm.state = .finished)
      (hframe : vm.frameInfo? 0 = none) (hvalue : vm.returnValue = value) :
      Describes (.finished value) (.ok (.finished value)) vm
  | faulted {vm : Debuggee} {error : RunError} (hstate : vm.state = .finished)
      (hframe : vm.frameInfo? 0 = none) : Describes (.faulted error) (.error error) vm

namespace Debuggee

/-- The consumer of halts, if there is one, heard of this event. -/
structure Hears (vm : Debuggee) (event : HaltEvent) (vm' : Debuggee) : Prop where
  hasHandler : vm'.hasHandler = vm.hasHandler
  halts : vm'.halts = if vm.hasHandler then vm.halts.push event else vm.halts

/-! ## One run request -/

theorem hears_deliver {vm vm' : Debuggee} (hhandler : vm'.hasHandler = vm.hasHandler)
    (hhalts : vm'.halts = vm.halts) (event : HaltEvent) : vm.Hears event (vm'.deliver event) := by
  rw [deliver]
  split
  · rename_i hpresent
    refine ⟨hhandler, ?_⟩
    rw [← hhandler, if_pos hpresent, hhalts]
  · rename_i habsent
    refine ⟨hhandler, ?_⟩
    rw [← hhandler, if_neg habsent, hhalts]

theorem heard_finish (vm : Debuggee) (value : Int32) (stack : Operands) :
    ∃ event, event.Describes (vm.finish value stack).1 (vm.finish value stack).2 ∧
      vm.Hears event (vm.finish value stack).2 := by
  refine ⟨.finished value, ?_, by apply hears_deliver <;> rfl⟩
  rw [finish, deliver_eq]
  exact .finished rfl rfl rfl

theorem heard_fail (vm : Debuggee) (error : RunError) (stack : Operands) :
    ∃ event, event.Describes (vm.fail error stack).1 (vm.fail error stack).2 ∧
      vm.Hears event (vm.fail error stack).2 := by
  refine ⟨.faulted error, ?_, by apply hears_deliver <;> rfl⟩
  rw [fail, deliver_eq]
  exact .faulted rfl rfl

theorem heard_halt (vm : Debuggee) (m : Machine) :
    ∃ event, event.Describes (vm.halt m).1 (vm.halt m).2 ∧ vm.Hears event (vm.halt m).2 := by
  rw [halt]
  split
  · exact heard_finish vm _ _
  · rename_i place hplace
    refine ⟨_, ?_, by apply hears_deliver <;> rfl⟩
    rw [deliver_eq]
    refine .paused rfl ?_
    rw [frameInfo?_zero]
    exact congrArg (Option.map _) hplace

theorem heard_settle (vm : Debuggee) (t : Transition) :
    ∃ event, event.Describes (vm.settle t).1 (vm.settle t).2 ∧ vm.Hears event (vm.settle t).2 := by
  cases t with
  | moved m => exact heard_halt vm m
  | trapped m => exact heard_halt vm m
  | finished value stack => exact heard_finish vm value stack
  | faulted place fault stack => exact heard_fail vm _ stack
  | idle stack => exact heard_finish vm _ stack

/-- Of a run request the consumer of halts hears once. -/
theorem heard_run {vm vm' : Debuggee} {fuel : Nat} {answer : Except RunError Stop}
    (h : vm.run fuel = some (answer, vm')) :
    ∃ event : HaltEvent, event.Describes answer vm' ∧ vm.Hears event vm' := by
  let running : Debuggee := { vm with state := .running }
  have hrunning : ∃ event : HaltEvent, event.Describes answer vm' ∧ running.Hears event vm' := by
    cases hp : vm.program with
    | none =>
      simp only [run, hp, Option.some.injEq] at h
      obtain ⟨event, hdescribes, hheard⟩ :=
        heard_fail { running with program := none } .noProgram vm.machine.stack
      rw [h] at hdescribes hheard
      exact ⟨event, hdescribes, hheard.hasHandler, hheard.halts⟩
    | some p =>
      rw [run_eq hp] at h
      obtain ⟨t, -, hserved⟩ := Option.map_eq_some_iff.mp h
      have hheard := heard_settle running t
      rwa [show running.settle t = (answer, vm') from hserved] at hheard
  obtain ⟨event, hdescribes, hheard⟩ := hrunning
  exact ⟨event, hdescribes, hheard.hasHandler, hheard.halts⟩

/-! ## Run requests of an operation -/

theorem Touches.halts {vm vm' : Debuggee} (h : vm.Touches vm') :
    vm'.hasHandler = vm.hasHandler ∧ vm'.halts = vm.halts := by
  cases h with
  | patch place =>
    rw [patch_eq]
    exact ⟨rfl, rfl⟩
  | restore place =>
    rw [restore_eq]
    exact ⟨rfl, rfl⟩
  | setStepping on => exact ⟨rfl, rfl⟩

theorem Issues.halts {vm running : Debuggee} (h : vm.Issues running) :
    running.hasHandler = vm.hasHandler ∧ running.halts = vm.halts := by
  cases h <;> exact ⟨rfl, rfl⟩

/-- The consumer of halts hears of each run request, in order, and of nothing else. -/
theorem Serves.heard {vm vm' : Debuggee} {runs : List ServedRun} (h : vm.Serves runs vm') :
    vm'.hasHandler = vm.hasHandler ∧
      ∃ events : List HaltEvent,
        List.Forall₂ (fun r event => event.Describes r.answer r.vm) runs events ∧
        vm'.halts = if vm.hasHandler then vm.halts ++ events.toArray else vm.halts := by
  induction h with
  | refl =>
    refine ⟨rfl, [], .nil, ?_⟩
    split <;> simp
  | touch _ htouch ih =>
    obtain ⟨hhandler, events, hdescribed, hhalts⟩ := ih
    exact ⟨htouch.halts.1.trans hhandler, events, hdescribed, htouch.halts.2.trans hhalts⟩
  | run _ r hissued ih =>
    obtain ⟨hhandler, events, hdescribed, hhalts⟩ := ih
    obtain ⟨event, hdescribes, hheard⟩ := heard_run r.served
    have hstart : r.running.hasHandler = vm.hasHandler := hissued.halts.1.trans hhandler
    refine ⟨hheard.hasHandler.trans hstart, events ++ [event], ?_, ?_⟩
    · exact List.rel_append hdescribed (.cons hdescribes .nil)
    · rw [hheard.halts, hstart, hissued.halts.2, hhalts]
      split <;> simp

end Debuggee

end BytecodeDebugger
