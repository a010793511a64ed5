import BytecodeDebugger.Proofs.ArmedCommands
import BytecodeDebugger.Proofs.IssuedRuns
import BytecodeDebugger.Proofs.NestedCalls
import Mathlib.Data.List.Chain

/-!
# The call stack is consistent between operations

Between the operations of a session a debuggee is never in the middle of a run request, it is paused
exactly when it has frames, and its frames are nested calls: each frame but the innermost waits on
the call instruction by which the next one was entered. So a run request always has a routine to
execute instructions of, and the answers that a debuggee has for the other cases are never given.

## Implementation notes

A frame waits on a call instruction of the program as it was written. The instruction may be patched
while it waits, and patching leaves the relation alone. A call is entered by a live instruction, and
a live call instruction is the written one.

The induction is over elementary requests and not over operations, so that what holds at their start
is also said of the run requests in the middle of an operation.
-/

namespace BytecodeDebugger

/-! ## Operands of the innermost frame -/

namespace Operands

/-- A stack is its lower part with the rest on top. -/
theorem above_extract (s : Operands) {base : Nat} (h : base ≤ s.size) :
    (⟨s.values.extract base s.values.size⟩ : Operands).above (s.values.extract 0 base) = s := by
  apply congrArg Operands.mk
  have hsize : max base s.values.size = s.values.size := Nat.max_eq_right h
  rw [Array.extract_append_extract, Nat.zero_min, hsize, Array.extract_size]

end Operands

/-- An instruction takes no operands from below the base of its frame: with them out of the way it
does the same, and they are below whatever it leaves. -/
theorem base_le_size_execute (i : Instruction) {frame : Frame} {stack : Operands}
    (h : frame.stackBase ≤ stack.size) : frame.stackBase ≤ (execute i frame stack).stack.size := by
  have hbelow : (stack.values.extract 0 frame.stackBase).size = frame.stackBase := by
    rw [Array.size_extract, Nat.sub_zero]
    exact Nat.min_eq_left h
  have hframe : Frame.raise { frame with stackBase := 0 }
      (stack.values.extract 0 frame.stackBase).size = frame := by
    rw [hbelow]
    rfl
  have hexecute := execute_above i { frame with stackBase := 0 }
    ⟨stack.values.extract frame.stackBase stack.values.size⟩
    (stack.values.extract 0 frame.stackBase)
  rw [hframe, stack.above_extract h] at hexecute
  rw [hexecute, Effect.above, Operands.size_above, hbelow]
  exact Nat.le_add_right _ _

/-! ## Nested frames -/

/-- A frame was entered by the call instruction that its caller waits on. -/
structure Frame.CalledFrom (program : Program) (inner outer : Frame) : Prop where
  base : outer.stackBase ≤ inner.stackBase
  call : ∃ i, program.instructionAt? ⟨outer.function, outer.pc⟩ = some i ∧ i.op = .call ∧
    i.immediate.toInt = inner.function

namespace Machine

/-- The frames of a machine are nested calls of routines of a program. -/
structure IsNested (program : Program) (m : Machine) : Prop where
  valid : ∀ frame ∈ m.frames, (program.routine? frame.function).isSome
  outermost : ∀ frame ∈ m.frames.getLast?, frame.stackBase = 0
  innermost : ∀ frame ∈ m.frames.head?, frame.stackBase ≤ m.stack.size
  called : m.frames.IsChain (Frame.CalledFrom program)

variable {program program' : Program} {m m' : Machine} {frame : Frame} {callers : List Frame}
  {stack : Operands}

/-- A new call is nested in nothing. -/
theorem isNested_start {function : Nat} (h : (program.routine? function).isSome)
    (args : Array Int32) : IsNested program (start function args) where
  valid frame hframe := by
    rw [List.mem_singleton.mp hframe]
    exact h
  outermost frame hframe := by
    cases hframe
    rfl
  innermost frame hframe := by
    cases hframe
    exact Nat.zero_le _
  called := List.isChain_singleton _

namespace IsNested

/-- Frames are nested in a program whatever is patched in it. -/
theorem of_unpatched (hsame : program'.unpatched = program.unpatched) (h : IsNested program m) :
    IsNested program' m where
  valid frame hframe := by
    have hvalid := h.valid frame hframe
    have hroutine := congrArg (fun p => (p.routine? frame.function).isSome) hsame
    simp only [Program.routine?_unpatched, Option.isSome_map] at hroutine
    rwa [hroutine]
  outermost := h.outermost
  innermost := h.innermost
  called := by
    apply h.called.imp
    intro inner outer hcalled
    have hinstruction : program'.instructionAt? ⟨outer.function, outer.pc⟩ =
        program.instructionAt? ⟨outer.function, outer.pc⟩ := by
      rw [← program'.instructionAt?_unpatched, hsame, program.instructionAt?_unpatched]
    refine ⟨hcalled.base, ?_⟩
    rw [hinstruction]
    exact hcalled.call

/-- Wherever the innermost frame goes on in its routine, the frames stay nested. -/
theorem go_on (h : IsNested program ⟨frame :: callers, stack⟩) (pc : Nat) (memory : Memory)
    {rest : Operands} (hbase : frame.stackBase ≤ rest.size) :
    IsNested program ⟨{ frame with pc, memory } :: callers, rest⟩ where
  valid inner hinner := by
    rcases List.mem_cons.mp hinner with rfl | hcaller
    · exact h.valid frame List.mem_cons_self
    · exact h.valid inner (List.mem_cons_of_mem _ hcaller)
  outermost outer houter := by
    cases callers with
    | nil =>
      cases houter
      exact h.outermost frame rfl
    | cons caller rest =>
      rw [List.getLast?_cons_cons] at houter
      apply h.outermost outer
      rwa [List.getLast?_cons_cons]
  innermost inner hinner := by
    cases hinner
    exact hbase
  called := by
    obtain ⟨hcaller, hcallers⟩ := List.isChain_cons.mp h.called
    apply List.isChain_cons.mpr
    refine ⟨?_, hcallers⟩
    intro caller hcalled
    exact ⟨(hcaller caller hcalled).base, (hcaller caller hcalled).call⟩

/-- A routine entered by a call instruction is nested in the frame that has executed it. -/
theorem enter (h : IsNested program ⟨frame :: callers, stack⟩) {i : Instruction} {function : Nat}
    (hi : program.instructionAt? ⟨frame.function, frame.pc⟩ = some i) (hop : i.op = .call)
    (hindex : i.immediate.toInt = function) (hroutine : (program.routine? function).isSome)
    (memory : Memory) {rest : Operands} (hbase : frame.stackBase ≤ rest.size) :
    IsNested program
      ⟨{ function, memory, stackBase := rest.size } :: frame :: callers, rest⟩ where
  valid inner hinner := by
    rcases List.mem_cons.mp hinner with rfl | hcaller
    · exact hroutine
    · exact h.valid inner hcaller
  outermost outer houter := by
    rw [List.getLast?_cons_cons] at houter
    exact h.outermost outer houter
  innermost inner hinner := by
    cases hinner
    exact Nat.le_refl _
  called := List.isChain_cons_cons.mpr ⟨⟨hbase, i, hi, hop, hindex⟩, h.called⟩

/-- Without the innermost frame the others are nested. -/
theorem leave {caller : Frame} (h : IsNested program ⟨frame :: caller :: callers, stack⟩) :
    IsNested program ⟨caller :: callers, stack⟩ where
  valid outer houter := h.valid outer (List.mem_cons_of_mem _ houter)
  outermost outer houter := by
    apply h.outermost outer
    rwa [List.getLast?_cons_cons]
  innermost inner hinner := by
    cases hinner
    obtain ⟨hcalled, -⟩ := List.isChain_cons_cons.mp h.called
    calc
      caller.stackBase ≤ frame.stackBase := hcalled.base
      _ ≤ stack.size := h.innermost frame rfl
  called := (List.isChain_cons_cons.mp h.called).2

end IsNested

/-! ## What a step does to the frames -/

/-- A live call instruction is the one that was written. -/
theorem instructionAt?_of_fetch_call {function pc : Nat} {i : Instruction}
    (h : fetch program function pc = .ok i) (hop : i.op = .call) :
    program.instructionAt? ⟨function, pc⟩ = some i := by
  cases hpatched : program.isPatched ⟨function, pc⟩ with
  | false =>
    rw [← fetch_unpatched hpatched] at h
    exact instructionAt?_of_fetch h
  | true =>
    rw [fetch_of_isPatched hpatched] at h
    cases h
    cases hop

/-- The routine that was entered exists, and its arguments were operands of the caller. -/
theorem cases_of_enter {index : Int}
    (h : enter .checked program index frame callers stack = some (.moved m)) :
    ∃ function memory rest, index = (function : Nat) ∧ (program.routine? function).isSome ∧
      frame.stackBase ≤ rest.size ∧
      m = ⟨{ function, memory, stackBase := rest.size } :: frame :: callers, rest⟩ := by
  rw [enter] at h
  split at h
  · cases h
  · rename_i function r hcallee
    obtain ⟨taken, hsplit, htaken⟩ := Option.map_eq_some_iff.mp h
    cases taken with
    | error fault => cases htaken
    | ok taken =>
      obtain ⟨args, rest⟩ := taken
      cases htaken
      rw [callee?] at hcallee
      split at hcallee
      · rename_i hindex
        obtain ⟨routine, hroutine, heq⟩ := Option.map_eq_some_iff.mp hcallee
        cases heq
        refine ⟨index.toNat, ⟨args⟩, rest, (Int.toNat_of_nonneg hindex).symm, ?_,
          (Operands.base_le_size_of_split hsplit).2, rfl⟩
        rw [hroutine]
        rfl
      · cases hcallee

/-- What an instruction that moved on did: it went on in its frame, it entered a routine, or it
returned to the caller. -/
theorem cases_of_moved (h : step program ⟨frame :: callers, stack⟩ = some (.moved m))
    (hbase : frame.stackBase ≤ stack.size) :
    (∃ pc memory rest, frame.stackBase ≤ rest.size ∧
        m = ⟨{ frame with pc, memory } :: callers, rest⟩) ∨
      (∃ i function memory rest, program.instructionAt? ⟨frame.function, frame.pc⟩ = some i ∧
        i.op = .call ∧ i.immediate.toInt = (function : Nat) ∧
        (program.routine? function).isSome ∧ frame.stackBase ≤ rest.size ∧
        m = ⟨{ function, memory, stackBase := rest.size } :: frame :: callers, rest⟩) ∨
      ∃ caller outer, callers = caller :: outer ∧
        m = ⟨{ caller with pc := caller.pc + 1 } :: outer, stack⟩ := by
  simp only [step, stepIn] at h
  split at h
  · cases h
  · rename_i i hfetch
    have hrest := base_le_size_execute i hbase
    obtain ⟨memory, hframe⟩ := frame_execute i frame stack
    cases heffect : execute i frame stack with
    | mk outcome inner rest =>
      rw [heffect] at h hrest hframe
      cases outcome with
      | error fault => cases h
      | ok outcome =>
        have houtcome : (execute i frame stack).outcome = .ok outcome := by rw [heffect]
        rcases outcome_execute houtcome with ⟨pc, rfl⟩ | ⟨-, htrap⟩ | ⟨hop, hcall⟩ | ⟨-, hreturn⟩
        · cases h
          exact .inl ⟨pc, memory, rest, hrest, by rw [show inner = _ from hframe]⟩
        · cases heffect.symm.trans htrap
          cases h
        · cases heffect.symm.trans hcall
          obtain ⟨function, entered, left, hindex, hroutine, hle, hm⟩ := cases_of_enter h
          exact .inr (.inl ⟨i, function, entered, left, instructionAt?_of_fetch_call hfetch hop,
            hop, hindex, hroutine, hle, hm⟩)
        · cases heffect.symm.trans hreturn
          cases callers with
          | nil => cases h
          | cons caller outer =>
            cases h
            exact .inr (.inr ⟨caller, outer, rfl, rfl⟩)

/-- The step lemma: frames stay nested while a machine moves on. -/
theorem IsNested.step (h : IsNested program m) (hmoved : m.step program = some (.moved m')) :
    IsNested program m' := by
  obtain ⟨frames, stack⟩ := m
  cases frames with
  | nil => cases hmoved
  | cons frame callers =>
    rcases cases_of_moved hmoved (h.innermost frame rfl) with
      ⟨pc, memory, rest, hbase, rfl⟩ |
      ⟨i, function, memory, rest, hi, hop, hindex, hroutine, hbase, rfl⟩ | ⟨caller, outer, rfl, rfl⟩
    · exact h.go_on pc memory hbase
    · exact h.enter hi hop hindex hroutine memory hbase
    · exact h.leave.go_on (caller.pc + 1) caller.memory (h.leave.innermost caller rfl)

/-- The run lemma: frames stay nested all along a trace. -/
theorem IsNested.after {k : Nat} (h : IsNested program m) (hafter : m.after program k = some m') :
    IsNested program m' := by
  induction k generalizing m with
  | zero =>
    cases hafter
    exact h
  | succ k ih =>
    rw [Machine.after] at hafter
    split at hafter
    · rename_i next hmoved
      exact ih (h.step hmoved) hafter
    · cases hafter

end Machine

/-! ## Consistent debuggees -/

namespace Debuggee

/-- How a debuggee stands between two requests: none is being served, a call is halted exactly if
there are frames, and the frames are nested calls of the loaded program. -/
structure Consistent (vm : Debuggee) : Prop where
  rests : vm.state ≠ .running
  paused_iff : vm.isPaused = true ↔ vm.machine.frames ≠ []
  nested : vm.machine.frames ≠ [] →
    ∃ program, vm.program = some program ∧ vm.machine.IsNested program

/-- A run request that starts in this debuggee has a program, and whenever it comes to execute an
instruction it has a frame in a routine of the program. -/
def StaysInProgram (vm : Debuggee) : Prop :=
  ∃ program, vm.program = some program ∧ ∀ k m, vm.machine.after program k = some m →
    ∃ frame callers, m.frames = frame :: callers ∧ (program.routine? frame.function).isSome

variable {vm vm' running : Debuggee}

theorem consistent_of_frames_eq_nil (hstate : vm.state ≠ .running) (hpaused : vm.isPaused = false)
    (hframes : vm.machine.frames = []) : vm.Consistent where
  rests := hstate
  paused_iff := by simp [hpaused, hframes]
  nested hne := absurd hframes hne

theorem consistent_of_finished (hstate : vm.state = .finished) (hunwound : vm.Unwound) :
    vm.Consistent := by
  have hidle : vm.isPaused = false := by
    rw [isPaused, hstate]
    rfl
  apply consistent_of_frames_eq_nil _ hidle (hunwound hidle)
  simp [hstate]

theorem consistent_of_nested {program : Program} {m : Machine} (hstate : vm.state = .paused)
    (hmachine : vm.machine = m) (hprogram : vm.program = some program) (hframes : m.frames ≠ [])
    (hnested : m.IsNested program) : vm.Consistent where
  rests := by simp [hstate]
  paused_iff := by simp [isPaused, hstate, hmachine, hframes]
  nested _ := ⟨program, hprogram, hmachine ▸ hnested⟩

/-- A new debuggee has no frames. -/
theorem consistent_new : Consistent {} :=
  consistent_of_frames_eq_nil (by decide) rfl rfl

theorem consistent_load (vm : Debuggee) (program : Program) : (vm.load program).2.Consistent :=
  consistent_of_frames_eq_nil (show RunState.notStarted ≠ .running by decide) rfl rfl

theorem Consistent.of_sameCall (hsame : SameCall vm vm') (h : vm.Consistent) : vm'.Consistent where
  rests := by
    rw [hsame.state]
    exact h.rests
  paused_iff := by
    rw [hsame.isPaused, hsame.machine]
    exact h.paused_iff
  nested hframes := by
    rw [hsame.machine] at hframes
    obtain ⟨program, hprogram, hnested⟩ := h.nested hframes
    have hplain : vm'.program.map Program.unpatched = some program.unpatched := by
      have hsame' := hsame.plain
      rwa [plain?, plain?, hprogram] at hsame'
    obtain ⟨program', hprogram', hunpatched⟩ := Option.map_eq_some_iff.mp hplain
    refine ⟨program', hprogram', ?_⟩
    rw [hsame.machine]
    exact hnested.of_unpatched hunpatched

/-- A run request starts in nested frames of the loaded program. -/
theorem Issues.nested (h : vm.Issues running) (hvm : vm.Consistent) :
    ∃ program, running.program = some program ∧ running.machine.frames ≠ [] ∧
      running.machine.IsNested program := by
  cases h with
  | call args hidle hprogram hname hroutine =>
    exact ⟨_, hprogram, List.cons_ne_nil _ _, Machine.isNested_start hroutine args⟩
  | resume hpaused =>
    have hframes := hvm.paused_iff.mp hpaused
    obtain ⟨program, hprogram, hnested⟩ := hvm.nested hframes
    exact ⟨program, hprogram, hframes, hnested⟩

theorem Issues.staysInProgram (h : vm.Issues running) (hvm : vm.Consistent) :
    running.StaysInProgram := by
  obtain ⟨program, hprogram, hframes, hnested⟩ := h.nested hvm
  refine ⟨program, hprogram, ?_⟩
  intro k m hafter
  obtain ⟨frame, callers, hm⟩ :=
    List.exists_cons_of_ne_nil (Machine.frames_ne_nil_of_after hframes hafter)
  refine ⟨frame, callers, hm, ?_⟩
  apply (hnested.after hafter).valid
  rw [hm]
  exact List.mem_cons_self

/-- However a run request comes to rest from nested frames, the debuggee is consistent after it. -/
theorem consistent_served {program : Program} {last : Machine} {t : Transition}
    (hprogram : vm.program = some program) (hnested : last.IsNested program)
    (hframes : last.frames ≠ []) (ht : last.step program = some t) :
    (vm.served t).2.Consistent := by
  have hprogram' := (vm.sameProgram_served t).program.trans hprogram
  have hunwound := vm.unwound_served t
  cases t with
  | moved m =>
    have hm := Machine.frames_ne_nil_of_step ht
    obtain ⟨-, hstate, hmachine⟩ := vm.served_halted (.inl rfl) hm
    exact consistent_of_nested hstate hmachine hprogram' hm (hnested.step ht)
  | trapped m =>
    cases Machine.eq_of_trapped ht
    obtain ⟨-, hstate, hmachine⟩ := vm.served_halted (.inr rfl) hframes
    exact consistent_of_nested hstate hmachine hprogram' hframes hnested
  | finished value stack => exact consistent_of_finished (vm.served_ended rfl).2.1 hunwound
  | faulted place fault stack => exact consistent_of_finished (vm.served_ended rfl).2.1 hunwound
  | idle stack =>
    apply consistent_of_finished _ hunwound
    rw [served, settle, finish, deliver_eq]

/-- A run request leaves a debuggee consistent, whether it runs freely or executes one
instruction. -/
theorem Issues.consistent {fuel : Nat} {answer : Except RunError Stop} (h : vm.Issues running)
    (hvm : vm.Consistent) (hrun : running.run fuel = some (answer, vm')) : vm'.Consistent := by
  obtain ⟨program, hprogram, hframes, hnested⟩ := h.nested hvm
  obtain ⟨k, last, t, hafter, -, hlast, hserved⟩ := exists_last_step hprogram hrun
  have hconsistent := consistent_served hprogram (hnested.after hafter)
    (Machine.frames_ne_nil_of_after hframes hafter) hlast
  rwa [hserved] at hconsistent

/-- Every elementary request leaves a debuggee consistent. -/
theorem Consistent.of_request (h : vm.Request vm') (hvm : vm.Consistent) : vm'.Consistent := by
  cases h with
  | load program => exact consistent_load vm program
  | patch place => exact hvm.of_sameCall (vm.sameCall_patch place)
  | restore place => exact hvm.of_sameCall (vm.sameCall_restore place)
  | setStepping on => exact hvm.of_sameCall (vm.sameCall_setStepping on)
  | setHandler => exact hvm.of_sameCall vm.sameCall_setHandler
  | clearHandler =>
    have hsame : SameCall vm vm.clearHandler := ⟨rfl, rfl, rfl, rfl, rfl⟩
    exact hvm.of_sameCall hsame
  | run hissued hrun => exact hissued.consistent hvm hrun

theorem Consistent.of_leads (h : vm.Leads vm') (hvm : vm.Consistent) : vm'.Consistent :=
  h.induction hvm Consistent.of_request

/-- In a consistent debuggee the last run request is answered by an error only if an instruction
failed. -/
theorem Ran.eq_fault {error : RunError} (hvm : vm.Consistent) (h : vm.Ran (.error error) vm') :
    ∃ place fault, error = .fault place fault := by
  obtain ⟨runs, last, hserves, hanswer⟩ := h
  obtain ⟨vm₁, hleads, hissued⟩ := hserves.issued last (by simp)
  obtain ⟨program, hprogram, -⟩ := hissued.nested (hvm.of_leads hleads)
  have hwhy := run_error (hanswer ▸ last.served)
  cases error with
  | fault place fault => exact ⟨place, fault, rfl⟩
  | _ => cases hprogram.symm.trans hwhy

end Debuggee

/-! ## Sessions -/

namespace Host

/-- A session over a new debuggee leaves it consistent. -/
theorem Session.consistent {permitted : Operation → Prop} {start host : Host} {failed : Bool}
    (hnew : start.vm = {}) (hsession : Session permitted start failed host) :
    host.vm.Consistent := by
  have hstart : start.vm.Consistent := by
    rw [hnew]
    exact Debuggee.consistent_new
  exact hstart.of_leads hsession.leads

/-- After every operation of every session over a new debuggee, on any level and of any programs,
the debuggee is consistent. The next operation changes it by elementary requests only, and each run
request among these, as among any others, executes instructions of the loaded program only. -/
theorem Session.call_stack_consistent {start host : Host} {failed : Bool} (hnew : start.vm = {})
    (hsession : Session (fun _ => True) start failed host) :
    host.vm.Consistent ∧
      (∀ fuel operation reply host', host.perform fuel operation = some (reply, host') →
        host.vm.Leads host'.vm) ∧
      ∀ vm running, host.vm.Leads vm → vm.Issues running → running.StaysInProgram := by
  have hhost := hsession.consistent hnew
  refine ⟨hhost, ?_, ?_⟩
  · intro fuel operation reply host' hperform
    exact leads_perform hperform
  · intro vm running hleads hissues
    exact hissues.staysInProgram (hhost.of_leads hleads)

end Host

/-- A debugger halted in the second routine of a program, with a breakpoint on the call instruction
that the first one waits on. -/
def Debugger.inSuccessor : Debugger :=
  match ((({} : Debugger).load .successor).2.set ⟨1, 2⟩).call 9 "main" #[] with
  | some (_, d) => d.set ⟨0, 2⟩
  | none => {}

/-- The two frames of the halted call are nested, although the call instruction of the outer one is
patched. -/
theorem Host.Session.call_stack_consistent_successor :
    Debugger.inSuccessor.vm.machine.frames = [⟨1, 2, ⟨#[3]⟩, 1⟩, ⟨0, 2, ⟨#[]⟩, 0⟩] ∧
      Debugger.inSuccessor.vm.isPatched ⟨0, 2⟩ = true ∧ Debugger.inSuccessor.vm.Consistent := by
  have hloaded : Session (fun _ => True) (.debugger {}) false
      (.debugger (({} : Debugger).load .successor).2) :=
    .perform .new trivial (show Host.perform 0 _ (.debugger (.load .successor)) = some _ from rfl)
  have hset := hloaded.perform trivial
    (show Host.perform 0 _ (.debugger (.set ⟨1, 2⟩)) = some _ from rfl)
  have hcalled := hset.perform trivial
    (show Host.perform 9 _ (.debugger (.call "main" #[])) = some (.stopped .paused, _) from rfl)
  have hpending := hcalled.perform trivial
    (show Host.perform 0 _ (.debugger (.set ⟨0, 2⟩)) = some (_, .debugger .inSuccessor) from rfl)
  exact ⟨by decide +kernel, by decide +kernel, (call_stack_consistent rfl hpending).1⟩

end BytecodeDebugger
