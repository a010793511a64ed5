import BytecodeDebugger.Proofs.Failures
import Mathlib.Logic.Relation

/-!
# What every operation consists of

Whatever is asked of a debuggee, a debugger or a stepper, the debuggee is changed by a few
elementary requests only: loading, patching and restoring, switching its modes, and run requests. So
what these preserve is preserved by every operation of every level, and what they all have in common
is said of every run request that an operation issues, the ones in the middle of a stepping command
included.

## Implementation notes

Run requests are told apart by `Issues`, which names the debuggee in which a request starts to run:
a call starts in a fresh frame of an exported routine, and only while no call is halted; resuming
starts where the call is halted. A rejected call or resumption issues nothing and changes nothing.

`Serves` lists the run requests on the way from one debuggee to another, and `Leads` does not. The
first is for a single operation, which does not load a program; sessions are led.
-/

namespace BytecodeDebugger

namespace Debuggee

/-- A debuggee issues a run request, which starts in the second one. -/
inductive Issues : Debuggee → Debuggee → Prop
  /-- An exported routine is called. -/
  | call {vm : Debuggee} {program : Program} {name : String} {function : Nat} (args : Array Int32)
      (hidle : vm.isPaused = false) (hprogram : vm.program = some program)
      (hname : program.lookup? name = some function)
      (hroutine : (program.routine? function).isSome) :
      Issues vm { vm with machine := Machine.start function args }
  /-- A halted call is resumed. -/
  | resume {vm : Debuggee} (hpaused : vm.isPaused = true) : Issues vm vm

/-- The elementary requests to a debuggee. -/
inductive Request : Debuggee → Debuggee → Prop
  | load (vm : Debuggee) (program : Program) : Request vm (vm.load program).2
  | patch (vm : Debuggee) (place : Location) : Request vm (vm.patch place).2
  | restore (vm : Debuggee) (place : Location) : Request vm (vm.restore place).2
  | setStepping (vm : Debuggee) (on : Bool) : Request vm (vm.setStepping on)
  | setHandler (vm : Debuggee) : Request vm vm.setHandler.2
  | clearHandler (vm : Debuggee) : Request vm vm.clearHandler
  /-- A run request is issued and served. -/
  | run {vm running vm' : Debuggee} {fuel : Nat} {answer : Except RunError Stop}
      (hissued : vm.Issues running) (hrun : running.run fuel = some (answer, vm')) : Request vm vm'

/-- A debuggee leads to another one by elementary requests. -/
def Leads : Debuggee → Debuggee → Prop :=
  Relation.ReflTransGen Request

namespace Leads

variable {vm vm₁ vm₂ : Debuggee}

theorem refl (vm : Debuggee) : Leads vm vm :=
  Relation.ReflTransGen.refl

theorem tail (h : Leads vm vm₁) (hrequest : vm₁.Request vm₂) : Leads vm vm₂ :=
  Relation.ReflTransGen.tail h hrequest

/-- What every elementary request preserves is preserved by all that consists of them. -/
theorem induction {P : Debuggee → Prop} (h : Leads vm vm₁) (hvm : P vm)
    (hrequest : ∀ {vm₁ vm₂ : Debuggee}, vm₁.Request vm₂ → P vm₁ → P vm₂) : P vm₁ := by
  induction h with
  | refl => exact hvm
  | tail _ hlast ih => exact hrequest hlast ih

end Leads

/-- A request to resume is rejected and changes nothing, or it is a run request. -/
theorem run_of_resume {vm vm' : Debuggee} {fuel : Nat} {answer : Except RunError Stop}
    (h : vm.resume fuel = some (answer, vm')) :
    (vm.isPaused = false ∧ answer = .error .notPaused ∧ vm' = vm) ∨
      (vm.isPaused = true ∧ vm.run fuel = some (answer, vm')) := by
  rw [resume] at h
  split at h
  · rename_i hpaused
    exact .inr ⟨hpaused, h⟩
  · rename_i hidle
    cases h
    exact .inl ⟨by simpa using hidle, rfl, rfl⟩

/-- A call is rejected, by an error that is no failure, and changes nothing, or it issues a run
request. -/
theorem issues_of_call {vm vm' : Debuggee} {fuel : Nat} {name : String} {args : Array Int32}
    {answer : Except RunError Stop} (h : vm.call fuel name args = some (answer, vm')) :
    (∃ error, answer = .error error ∧ error.failedAt? = none ∧ vm' = vm) ∨
      ∃ running, vm.Issues running ∧ running.run fuel = some (answer, vm') := by
  rw [call] at h
  split at h
  · cases h
    exact .inl ⟨_, rfl, rfl, rfl⟩
  · rename_i hidle
    split at h
    · cases h
      exact .inl ⟨_, rfl, rfl, rfl⟩
    · rename_i program hprogram
      split at h
      · cases h
        exact .inl ⟨_, rfl, rfl, rfl⟩
      · rename_i function hfunction
        obtain ⟨hname, hroutine⟩ := Option.filter_eq_some_iff.mp hfunction
        exact .inr ⟨_, .call args (by simpa using hidle) hprogram hname hroutine, h⟩

/-! ## The run requests of an operation -/

/-- A run request that was served: where it started to run, within which bound, its answer, and the
debuggee after it. -/
structure ServedRun where
  running : Debuggee
  fuel : Nat
  answer : Except RunError Stop
  vm : Debuggee
  served : running.run fuel = some (answer, vm)

/-- What is done to a debuggee between two run requests of a command. -/
inductive Touches : Debuggee → Debuggee → Prop
  | patch (vm : Debuggee) (place : Location) : Touches vm (vm.patch place).2
  | restore (vm : Debuggee) (place : Location) : Touches vm (vm.restore place).2
  | setStepping (vm : Debuggee) (on : Bool) : Touches vm (vm.setStepping on)

theorem Touches.sameCall {vm vm' : Debuggee} (h : vm.Touches vm') : SameCall vm vm' := by
  cases h with
  | patch place => exact vm.sameCall_patch place
  | restore place => exact vm.sameCall_restore place
  | setStepping on => exact vm.sameCall_setStepping on

theorem Touches.request {vm vm' : Debuggee} (h : vm.Touches vm') : vm.Request vm' := by
  cases h with
  | patch place => exact .patch vm place
  | restore place => exact .restore vm place
  | setStepping on => exact .setStepping vm on

/-- A debuggee comes to another one by the listed run requests, and by what is done between them. -/
inductive Serves (vm : Debuggee) : List ServedRun → Debuggee → Prop
  | refl : Serves vm [] vm
  | touch {runs : List ServedRun} {vm₁ vm₂ : Debuggee} (h : Serves vm runs vm₁)
      (htouch : vm₁.Touches vm₂) : Serves vm runs vm₂
  | run {runs : List ServedRun} {vm₁ : Debuggee} (h : Serves vm runs vm₁) (r : ServedRun)
      (hissued : vm₁.Issues r.running) : Serves vm (runs ++ [r]) r.vm

namespace Serves

variable {vm vm₁ vm₂ : Debuggee} {runs runs' : List ServedRun}

theorem trans (h : vm.Serves runs vm₁) (h' : vm₁.Serves runs' vm₂) :
    vm.Serves (runs ++ runs') vm₂ := by
  induction h' with
  | refl =>
    rw [List.append_nil]
    exact h
  | touch _ htouch ih => exact ih.touch htouch
  | run _ r hissued ih =>
    rw [← List.append_assoc]
    exact ih.run r hissued

theorem leads (h : vm.Serves runs vm₁) : Leads vm vm₁ := by
  induction h with
  | refl => exact .refl vm
  | touch _ htouch ih => exact ih.tail htouch.request
  | run _ r hissued ih => exact ih.tail (.run hissued r.served)

/-- Starting to run does not change the program. -/
theorem program_of_issues {running : Debuggee} (h : vm.Issues running) :
    running.program = vm.program := by
  cases h <;> rfl

/-- Whatever is run, the program as it was written stays. -/
theorem plain (h : vm.Serves runs vm₁) : vm₁.plain? = vm.plain? := by
  induction h with
  | refl => rfl
  | touch _ htouch ih => exact htouch.sameCall.plain.trans ih
  | @run _ vm₂ _ r hissued ih =>
    have hstart : r.running.plain? = vm₂.plain? :=
      congrArg (Option.map Program.unpatched) (program_of_issues hissued)
    exact (run_rest r.served).1.plain.trans (hstart.trans ih)

/-- Each run request is issued on the way. -/
theorem issued (h : vm.Serves runs vm₁) :
    ∀ r ∈ runs, ∃ vm₂, Leads vm vm₂ ∧ vm₂.Issues r.running := by
  induction h with
  | refl => simp
  | touch _ htouch ih => exact ih
  | run before r hissued ih =>
    intro r' hr'
    rcases List.mem_append.mp hr' with hearlier | hlast
    · exact ih r' hearlier
    · rw [List.mem_singleton.mp hlast]
      exact ⟨_, before.leads, hissued⟩

/-- Nothing is run after the last run request. -/
theorem sameCall_last {last : ServedRun} (h : vm.Serves runs vm₁)
    (hlast : runs.getLast? = some last) : SameCall last.vm vm₁ := by
  induction h with
  | refl => cases hlast
  | touch _ htouch ih => exact (ih hlast).trans htouch.sameCall
  | run _ r hissued ih =>
    rw [List.getLast?_concat] at hlast
    cases hlast
    exact .refl _

/-- Without a run request the call stays as it is. -/
theorem sameCall_of_nil (h : vm.Serves [] vm₁) : SameCall vm vm₁ := by
  generalize hruns : ([] : List ServedRun) = runs at h
  induction h with
  | refl => exact .refl vm
  | touch _ htouch ih => exact (ih hruns).trans htouch.sameCall
  | run _ r hissued ih => exact absurd hruns (by simp)

end Serves

/-- A debuggee comes to another one by run requests, the last of which was answered so. -/
def Ran (vm : Debuggee) (answer : Except RunError Stop) (vm' : Debuggee) : Prop :=
  ∃ runs last, vm.Serves (runs ++ [last]) vm' ∧ last.answer = answer

namespace Ran

variable {vm vm₁ vm₂ : Debuggee} {runs : List ServedRun} {answer : Except RunError Stop}

/-- The run request that a debuggee issues is the last one. -/
theorem of_issues {running : Debuggee} {fuel : Nat} (hissued : vm.Issues running)
    (h : running.run fuel = some (answer, vm₁)) : vm.Ran answer vm₁ :=
  let r : ServedRun := ⟨running, fuel, answer, vm₁, h⟩
  ⟨[], r, Serves.refl.run r hissued, rfl⟩

theorem after (h : vm₁.Ran answer vm₂) (hbefore : vm.Serves runs vm₁) : vm.Ran answer vm₂ := by
  obtain ⟨later, last, hserves, hanswer⟩ := h
  refine ⟨runs ++ later, last, ?_, hanswer⟩
  rw [List.append_assoc]
  exact hbefore.trans hserves

theorem before (h : vm.Ran answer vm₁) (hafter : vm₁.Serves [] vm₂) : vm.Ran answer vm₂ := by
  obtain ⟨runs, last, hserves, hanswer⟩ := h
  refine ⟨runs, last, ?_, hanswer⟩
  rw [← List.append_nil (runs ++ [last])]
  exact hserves.trans hafter

/-- The last answer says whether the call is halted, and if so, it is halted at a location. -/
theorem rest (h : vm.Ran answer vm₁) :
    (answer = .ok .paused ∧ ∃ place, vm₁.haltedAt? = some place) ∨
      (answer ≠ .ok .paused ∧ vm₁.isPaused = false) := by
  obtain ⟨runs, last, hserves, rfl⟩ := h
  have hsame := hserves.sameCall_last List.getLast?_concat
  obtain ⟨-, ⟨hanswer, hstate, hframes⟩ | ⟨hanswer, hstate⟩⟩ := run_rest last.served
  · refine .inl ⟨hanswer, ?_⟩
    rw [hsame.haltedAt?, haltedAt?_of_isPaused (by rw [isPaused, hstate]; rfl)]
    exact location?_eq_some hframes
  · refine .inr ⟨hanswer, ?_⟩
    rw [hsame.isPaused, isPaused, hstate]
    rfl

end Ran

/-- Resuming a halted call is a run request. -/
theorem ran_resume {vm vm' : Debuggee} {fuel : Nat} {answer : Except RunError Stop}
    (hpaused : vm.isPaused = true) (h : vm.resume fuel = some (answer, vm')) :
    vm.Ran answer vm' := by
  obtain ⟨hidle, -⟩ | ⟨-, hrun⟩ := run_of_resume h
  · rw [hpaused] at hidle
    cases hidle
  · exact .of_issues (.resume hpaused) hrun

theorem serves_resume {vm vm' : Debuggee} {fuel : Nat} {answer : Except RunError Stop}
    (h : vm.resume fuel = some (answer, vm')) : ∃ runs, vm.Serves runs vm' := by
  obtain ⟨-, -, rfl⟩ | ⟨hpaused, -⟩ := run_of_resume h
  · exact ⟨[], .refl⟩
  · obtain ⟨runs, last, hserves, -⟩ := ran_resume hpaused h
    exact ⟨_, hserves⟩

theorem serves_call {vm vm' : Debuggee} {fuel : Nat} {name : String} {args : Array Int32}
    {answer : Except RunError Stop} (h : vm.call fuel name args = some (answer, vm')) :
    ∃ runs, vm.Serves runs vm' := by
  obtain ⟨-, -, -, rfl⟩ | ⟨running, hissued, hrun⟩ := issues_of_call h
  · exact ⟨[], .refl⟩
  · obtain ⟨runs, last, hserves, -⟩ := Ran.of_issues hissued hrun
    exact ⟨_, hserves⟩

theorem leads_perform {vm vm' : Debuggee} {fuel : Nat} {operation : VmOperation} {reply : Reply}
    (h : vm.perform fuel operation = some (reply, vm')) : Leads vm vm' := by
  have hhere := Leads.refl vm
  cases operation with
  | load program =>
    cases h
    exact hhere.tail (.load vm program)
  | call name args =>
    obtain ⟨⟨answer, vm₁⟩, hcall, heq⟩ := Option.map_eq_some_iff.mp h
    cases heq
    obtain ⟨runs, hserves⟩ := serves_call hcall
    exact hserves.leads
  | resume =>
    obtain ⟨⟨answer, vm₁⟩, hresume, heq⟩ := Option.map_eq_some_iff.mp h
    cases heq
    obtain ⟨runs, hserves⟩ := serves_resume hresume
    exact hserves.leads
  | setStepping on =>
    cases h
    exact hhere.tail (.setStepping vm on)
  | setHandler =>
    cases h
    exact hhere.tail (.setHandler vm)
  | clearHandler =>
    cases h
    exact hhere.tail (.clearHandler vm)

end Debuggee

end BytecodeDebugger
