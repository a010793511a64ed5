import BytecodeDebugger.Debuggee
import BytecodeDebugger.Proofs.PlainTrace

/-!
# Run requests

What a debuggee does to its program and what a run request makes of its machine. Patching and
restoring change the patched locations only; a run request leaves the program alone and is answered
by the transition in which the machine came to rest, which is the transition of the plain trace
unless the machine stands on a patched location.

## Implementation notes

`SameCall` collects what the requests that run nothing leave alone: the call in progress and the
program as it was written. It is reflexive and transitive, so it is proved of the elementary
requests and composed for the others.
-/

namespace BytecodeDebugger

namespace Ending

/-- The answer to the run request by which a call ended so. -/
def answer : Ending → Except RunError Stop
  | .returned value => .ok (.finished value)
  | .faulted place fault => .error (.fault place fault)

end Ending

namespace Debuggee

/-- The loaded program as it was written. -/
def plain? (vm : Debuggee) : Option Program :=
  vm.program.map Program.unpatched

/-- Whether a breakpoint displaced the instruction at a location of the loaded program. -/
def isPatched (vm : Debuggee) (place : Location) : Bool :=
  vm.program.any fun p => p.isPatched place

/-- Whether the loaded program has an instruction at a location. -/
def hasAddress (vm : Debuggee) (place : Location) : Bool :=
  vm.plain?.any fun p => p.hasAddress place

/-- Two debuggees with the same program, as it was written, and the same call in progress. -/
structure SameCall (vm vm' : Debuggee) : Prop where
  plain : vm'.plain? = vm.plain?
  programId : vm'.programId = vm.programId
  machine : vm'.machine = vm.machine
  state : vm'.state = vm.state
  returnValue : vm'.returnValue = vm.returnValue

namespace SameCall

theorem refl (vm : Debuggee) : SameCall vm vm :=
  ⟨rfl, rfl, rfl, rfl, rfl⟩

theorem trans {vm₁ vm₂ vm₃ : Debuggee} (h : SameCall vm₁ vm₂) (h' : SameCall vm₂ vm₃) :
    SameCall vm₁ vm₃ :=
  ⟨h'.plain.trans h.plain, h'.programId.trans h.programId, h'.machine.trans h.machine,
    h'.state.trans h.state, h'.returnValue.trans h.returnValue⟩

theorem hasAddress {vm vm' : Debuggee} (h : SameCall vm vm') (place : Location) :
    vm'.hasAddress place = vm.hasAddress place := by
  rw [Debuggee.hasAddress, h.plain, Debuggee.hasAddress]

theorem isPaused {vm vm' : Debuggee} (h : SameCall vm vm') : vm'.isPaused = vm.isPaused := by
  rw [Debuggee.isPaused, h.state, Debuggee.isPaused]

end SameCall

/-! ## Patching -/

theorem patch_eq (vm : Debuggee) (place : Location) :
    (vm.patch place).2 = { vm with program := vm.program.map fun p => (p.patch place).2 } := by
  cases vm with
  | mk program => cases program <;> rfl

theorem restore_eq (vm : Debuggee) (place : Location) :
    (vm.restore place).2 = { vm with program := vm.program.map fun p => (p.restore place).2 } := by
  cases vm with
  | mk program => cases program <;> rfl

theorem sameCall_patch (vm : Debuggee) (place : Location) : SameCall vm (vm.patch place).2 := by
  rw [patch_eq]
  refine ⟨?_, rfl, rfl, rfl, rfl⟩
  simp [plain?, Option.map_map, Function.comp_def, Program.unpatched_patch]

theorem sameCall_restore (vm : Debuggee) (place : Location) : SameCall vm (vm.restore place).2 := by
  rw [restore_eq]
  refine ⟨?_, rfl, rfl, rfl, rfl⟩
  simp [plain?, Option.map_map, Function.comp_def, Program.unpatched_restore]

theorem sameCall_setStepping (vm : Debuggee) (on : Bool) : SameCall vm (vm.setStepping on) :=
  ⟨rfl, rfl, rfl, rfl, rfl⟩

/-- A patch adds its location to the patched ones, if the loaded program has it. -/
theorem isPatched_patch (vm : Debuggee) (place other : Location) :
    (vm.patch place).2.isPatched other =
      (vm.isPatched other || (decide (place = other) && vm.hasAddress place)) := by
  rw [patch_eq, isPatched, isPatched, hasAddress, plain?]
  cases vm.program with
  | none => simp
  | some p => simp [Program.isPatched_patch, Program.hasAddress_unpatched]

/-- Restoring takes its location out of the patched ones. -/
theorem isPatched_restore (vm : Debuggee) (place other : Location) :
    (vm.restore place).2.isPatched other = (decide (place ≠ other) && vm.isPatched other) := by
  rw [restore_eq, isPatched, isPatched]
  cases vm.program with
  | none => simp
  | some p => simp [Program.isPatched_restore]

/-- The trap was put in place now if the location is in the program and was not patched before. -/
theorem patch_fst (vm : Debuggee) (place : Location) :
    (vm.patch place).1 = (vm.hasAddress place && !vm.isPatched place) := by
  rw [patch, isPatched, hasAddress, plain?]
  split
  · rename_i hnone
    simp [hnone]
  · rename_i p hsome
    simp [hsome, Program.patch_fst, Program.hasAddress_unpatched]

/-- There was an instruction to put back if the location was patched. -/
theorem restore_fst (vm : Debuggee) (place : Location) :
    (vm.restore place).1 = vm.isPatched place := by
  rw [restore, isPatched]
  split
  · rename_i hnone
    simp [hnone]
  · rename_i p hsome
    simp [hsome, Program.restore_fst]

theorem hasAddress_of_isPatched {vm : Debuggee} {place : Location} (h : vm.isPatched place = true) :
    vm.hasAddress place = true := by
  rw [isPatched] at h
  rw [hasAddress, plain?]
  cases hp : vm.program with
  | none => simp [hp] at h
  | some p =>
    rw [hp] at h
    simpa [Program.hasAddress_unpatched] using Program.hasAddress_of_isPatched h

/-! ## Answers of run requests -/

/-- What a run request leaves alone. -/
structure SameProgram (vm vm' : Debuggee) : Prop where
  program : vm'.program = vm.program
  programId : vm'.programId = vm.programId

/-- The answer to a run request that came to rest by a transition, and the debuggee after it. -/
def served (vm : Debuggee) (t : Transition) : Except RunError Stop × Debuggee :=
  { vm with state := .running }.settle t

theorem deliver_eq (vm : Debuggee) (event : HaltEvent) :
    vm.deliver event = { vm with halts := (vm.deliver event).halts } := by
  rw [deliver]
  split <;> rfl

theorem location?_eq_some {m : Machine} (hm : m.frames ≠ []) :
    ∃ place, m.location? = some place := by
  obtain ⟨frame, callers, hframes⟩ := List.exists_cons_of_ne_nil hm
  exact ⟨⟨frame.function, frame.pc⟩, by simp [Machine.location?, hframes]⟩

theorem sameProgram_finish (vm : Debuggee) (value : Int32) (stack : Operands) :
    SameProgram vm (vm.finish value stack).2 := by
  rw [finish, deliver_eq]
  exact ⟨rfl, rfl⟩

theorem sameProgram_halt (vm : Debuggee) (m : Machine) : SameProgram vm (vm.halt m).2 := by
  rw [halt]
  split
  · exact sameProgram_finish vm _ _
  · rw [deliver_eq]
    exact ⟨rfl, rfl⟩

theorem sameProgram_settle (vm : Debuggee) (t : Transition) : SameProgram vm (vm.settle t).2 := by
  cases t with
  | moved m => exact sameProgram_halt vm m
  | trapped m => exact sameProgram_halt vm m
  | finished value stack => exact sameProgram_finish vm value stack
  | faulted place fault stack =>
    rw [settle, fail, deliver_eq]
    exact ⟨rfl, rfl⟩
  | idle stack => exact sameProgram_finish vm _ stack

theorem sameProgram_served (vm : Debuggee) (t : Transition) : SameProgram vm (vm.served t).2 := by
  obtain ⟨hprogram, hid⟩ := sameProgram_settle { vm with state := .running } t
  exact ⟨hprogram, hid⟩

/-- A machine that can go on is halted. -/
theorem served_halted (vm : Debuggee) {t : Transition} {m : Machine}
    (ht : t = .moved m ∨ t = .trapped m) (hm : m.frames ≠ []) :
    (vm.served t).1 = .ok .paused ∧ (vm.served t).2.state = .paused ∧
      (vm.served t).2.machine = m := by
  have hserved : vm.served t = { vm with state := .running }.halt m := by
    rcases ht with rfl | rfl <;> rfl
  obtain ⟨place, hplace⟩ := location?_eq_some hm
  rw [hserved, halt]
  split
  · rename_i hnone
    rw [hplace] at hnone
    cases hnone
  · rw [deliver_eq]
    exact ⟨rfl, rfl, rfl⟩

/-- A call that ended is over. -/
theorem served_ended (vm : Debuggee) {t : Transition} {ending : Ending}
    (ht : t.ending? = some ending) :
    (vm.served t).1 = ending.answer ∧ (vm.served t).2.state = .finished ∧
      ∀ value, ending = .returned value → (vm.served t).2.returnValue = value := by
  cases t with
  | finished value stack =>
    cases ht
    rw [served, settle, finish, deliver_eq]
    refine ⟨rfl, rfl, ?_⟩
    rintro _ ⟨⟩
    rfl
  | faulted place fault stack =>
    cases ht
    rw [served, settle, fail, deliver_eq]
    exact ⟨rfl, rfl, nofun⟩
  | moved m => cases ht
  | trapped m => cases ht
  | idle stack => cases ht

/-- A run request comes to rest by one instruction in stepping mode, by a run otherwise. -/
theorem run_eq {vm : Debuggee} {p : Program} (hp : vm.program = some p) (fuel : Nat) :
    vm.run fuel = (if vm.stepping then vm.machine.step p
      else vm.machine.run p fuel).map vm.served := by
  rw [run]
  split
  · rename_i hnone
    rw [show vm.program = none from hnone] at hp
    cases hp
  · rename_i q hq
    cases hp.symm.trans hq
    rfl

/-- A run request comes to rest by the last of the instructions that it executes, which in stepping
mode is the first. -/
theorem exists_last_step {vm vm' : Debuggee} {p : Program} {fuel : Nat}
    {answer : Except RunError Stop} (hp : vm.program = some p)
    (h : vm.run fuel = some (answer, vm')) :
    ∃ k last t, vm.machine.after p k = some last ∧ (vm.stepping = true → k = 0) ∧
      last.step p = some t ∧ vm.served t = (answer, vm') := by
  rw [run_eq hp] at h
  obtain ⟨t, ht, hserved⟩ := Option.map_eq_some_iff.mp h
  split at ht
  · exact ⟨0, vm.machine, t, rfl, fun _ => rfl, ht, hserved⟩
  · rename_i hfree
    obtain ⟨k, last, -, hafter, hlast, -⟩ := Machine.run_eq_some_iff.mp ht
    exact ⟨k, last, t, hafter, fun hstepping => absurd hstepping hfree, hlast, hserved⟩

theorem settle_rest (vm : Debuggee) (t : Transition) :
    ((vm.settle t).1 = .ok .paused ∧ (vm.settle t).2.state = .paused ∧
        (vm.settle t).2.machine.frames ≠ []) ∨
      ((vm.settle t).1 ≠ .ok .paused ∧ (vm.settle t).2.state = .finished) := by
  have hfinish (value : Int32) (stack : Operands) :
      (vm.finish value stack).1 ≠ .ok .paused ∧ (vm.finish value stack).2.state = .finished := by
    rw [finish, deliver_eq]
    exact ⟨nofun, rfl⟩
  have hhalt (m : Machine) :
      ((vm.halt m).1 = .ok .paused ∧ (vm.halt m).2.state = .paused ∧
          (vm.halt m).2.machine.frames ≠ []) ∨
        ((vm.halt m).1 ≠ .ok .paused ∧ (vm.halt m).2.state = .finished) := by
    rw [halt]
    split
    · exact .inr (hfinish _ _)
    · rename_i place hplace
      rw [deliver_eq]
      refine .inl ⟨rfl, rfl, fun hnil => ?_⟩
      have hframes : m.frames = [] := hnil
      simp [Machine.location?, hframes] at hplace
  cases t with
  | moved m => exact hhalt m
  | trapped m => exact hhalt m
  | finished value stack => exact .inr (hfinish value stack)
  | faulted place fault stack =>
    rw [settle, fail, deliver_eq]
    exact .inr ⟨nofun, rfl⟩
  | idle stack => exact .inr (hfinish _ stack)

/-- A run request leaves the call halted, in a frame, or ended, whatever the program. -/
theorem run_rest {vm vm' : Debuggee} {fuel : Nat} {answer : Except RunError Stop}
    (h : vm.run fuel = some (answer, vm')) :
    SameProgram vm vm' ∧
      ((answer = .ok .paused ∧ vm'.state = .paused ∧ vm'.machine.frames ≠ []) ∨
        (answer ≠ .ok .paused ∧ vm'.state = .finished)) := by
  cases hp : vm.program with
  | none =>
    rw [run] at h
    simp only [hp, fail] at h
    rw [deliver_eq] at h
    cases h
    exact ⟨⟨hp ▸ rfl, rfl⟩, .inr ⟨nofun, rfl⟩⟩
  | some p =>
    rw [run_eq hp] at h
    obtain ⟨t, -, hserved⟩ := Option.map_eq_some_iff.mp h
    have hvm' : vm' = (vm.served t).2 := by rw [hserved]
    have hanswer : answer = (vm.served t).1 := by rw [hserved]
    rw [hvm', hanswer]
    exact ⟨sameProgram_served vm t, settle_rest { vm with state := .running } t⟩

/-- A larger bound does not change the answer to a run request. -/
theorem run_mono {vm : Debuggee} {fuel fuel' : Nat} {r : Except RunError Stop × Debuggee}
    (hle : fuel ≤ fuel') (h : vm.run fuel = some r) : vm.run fuel' = some r := by
  cases hp : vm.program with
  | none =>
    rw [run] at h ⊢
    simpa only [hp] using h
  | some p =>
    rw [run_eq hp] at h ⊢
    by_cases hstepping : vm.stepping = true
    · rw [if_pos hstepping] at h ⊢
      exact h
    · rw [if_neg hstepping] at h ⊢
      obtain ⟨t, ht, hr⟩ := Option.map_eq_some_iff.mp h
      exact Option.map_eq_some_iff.mpr ⟨t, Machine.run_mono hle ht, hr⟩

/-- Where a run request comes to rest in the plain trace: halted after so many instructions, or at
the end of the call. -/
theorem run_plain {vm vm' : Debuggee} {p : Program} {fuel : Nat} {answer : Except RunError Stop}
    (hp : vm.program = some p) (hfree : p.TrapFree) (hm : vm.machine.frames ≠ [])
    (h : vm.run fuel = some (answer, vm')) :
    SameProgram vm vm' ∧ ∃ k,
      (answer = .ok .paused ∧ vm'.state = .paused ∧
        vm.machine.after p.unpatched k = some vm'.machine) ∨
      ∃ ending : Ending, answer = ending.answer ∧ vm'.state = .finished ∧
        (∀ value, ending = .returned value → vm'.returnValue = value) ∧
        vm.machine.EndsAfter p.unpatched k ending := by
  obtain ⟨k, last, t, hafter, -, hlast, hserved⟩ := exists_last_step hp h
  have hvm' : vm' = (vm.served t).2 := by rw [hserved]
  have hanswer : answer = (vm.served t).1 := by rw [hserved]
  have hplain := Machine.after_unpatched hafter
  have hframes := Machine.frames_ne_nil_of_after hm hplain
  refine ⟨hvm' ▸ sameProgram_served vm t, ?_⟩
  rw [Machine.step_eq] at hlast
  split at hlast
  · cases hlast
    obtain ⟨h₁, h₂, h₃⟩ := served_halted vm (.inr rfl) hframes
    exact ⟨k, .inl ⟨hanswer.trans h₁, hvm' ▸ h₂, by rw [hvm', h₃, hplain]⟩⟩
  · rcases Machine.step_unpatched_cases hfree hframes hlast with ⟨next, rfl⟩ | ⟨ending, hending⟩
    · have hnext : vm.machine.after p.unpatched (k + 1) = some next := by
        rw [Machine.after_add 1 hplain, Machine.after_succ_of_moved 0 hlast, Machine.after]
      obtain ⟨h₁, h₂, h₃⟩ := served_halted vm (.inl rfl) (Machine.frames_ne_nil_of_step hlast)
      exact ⟨k + 1, .inl ⟨hanswer.trans h₁, hvm' ▸ h₂, by rw [hvm', h₃, hnext]⟩⟩
    · obtain ⟨h₁, h₂, h₃⟩ := served_ended vm hending
      exact ⟨k, .inr ⟨ending, hanswer.trans h₁, hvm' ▸ h₂, hvm' ▸ h₃, last, hplain,
        Option.bind_eq_some_iff.mpr ⟨t, hlast, hending⟩⟩⟩

/-! ## Where a call is halted -/

/-- The location at which a call is halted. -/
def haltedAt? (vm : Debuggee) : Option Location :=
  if vm.isPaused then vm.machine.location? else none

theorem frameInfo?_zero (vm : Debuggee) :
    vm.frameInfo? 0 =
      vm.machine.location?.map fun place => ⟨vm.programId, place.function, place.address⟩ := by
  rw [frameInfo?, Machine.location?]
  cases vm.machine.frames <;> rfl

theorem SameCall.haltedAt? {vm vm' : Debuggee} (h : SameCall vm vm') :
    vm'.haltedAt? = vm.haltedAt? := by
  rw [Debuggee.haltedAt?, h.isPaused, h.machine, Debuggee.haltedAt?]

theorem haltedAt?_of_isPaused {vm : Debuggee} (h : vm.isPaused = true) :
    vm.haltedAt? = vm.machine.location? :=
  if_pos h

theorem haltedAt?_of_not_isPaused {vm : Debuggee} (h : vm.isPaused = false) :
    vm.haltedAt? = none := by
  rw [haltedAt?, h]
  rfl

theorem isPaused_of_haltedAt? {vm : Debuggee} {place : Location} (h : vm.haltedAt? = some place) :
    vm.isPaused = true ∧ vm.machine.location? = some place := by
  rw [haltedAt?] at h
  split at h
  · rename_i hpaused
    exact ⟨hpaused, h⟩
  · cases h

/-- Where a halted call stands, as a frame. -/
theorem frameInfo?_of_haltedAt? {vm : Debuggee} {place : Location}
    (h : vm.haltedAt? = some place) :
    vm.frameInfo? 0 = some ⟨vm.programId, place.function, place.address⟩ := by
  rw [vm.frameInfo?_zero, (isPaused_of_haltedAt? h).2, Option.map_some]

theorem SameProgram.refl (vm : Debuggee) : SameProgram vm vm :=
  ⟨rfl, rfl⟩

theorem SameProgram.isPatched {vm vm' : Debuggee} (h : SameProgram vm vm') (place : Location) :
    vm'.isPatched place = vm.isPatched place := by
  rw [Debuggee.isPatched, h.program, Debuggee.isPatched]

theorem SameProgram.plain {vm vm' : Debuggee} (h : SameProgram vm vm') :
    vm'.plain? = vm.plain? := by
  rw [plain?, h.program, plain?]

/-- Without a halted call there is nothing to resume. -/
theorem resume_of_not_isPaused {vm : Debuggee} (hvm : vm.isPaused = false) (fuel : Nat) :
    vm.resume fuel = some (.error .notPaused, vm) := by
  rw [resume, hvm]
  rfl

/-- A request to resume is answered by where it left the call: halted at some location, or not
halted at all. -/
theorem resume_rest {vm vm' : Debuggee} {fuel : Nat} {answer : Except RunError Stop}
    (h : vm.resume fuel = some (answer, vm')) :
    SameProgram vm vm' ∧
      ((answer = .ok .paused ∧ ∃ place, vm'.haltedAt? = some place) ∨
        (answer ≠ .ok .paused ∧ vm'.isPaused = false)) := by
  rw [resume] at h
  split at h
  · obtain ⟨hsame, ⟨hanswer, hstate, hframes⟩ | ⟨hanswer, hstate⟩⟩ := run_rest h
    · refine ⟨hsame, .inl ⟨hanswer, ?_⟩⟩
      rw [haltedAt?_of_isPaused (by rw [isPaused, hstate]; rfl)]
      exact location?_eq_some hframes
    · exact ⟨hsame, .inr ⟨hanswer, by rw [isPaused, hstate]; rfl⟩⟩
  · rename_i hpaused
    cases h
    exact ⟨.refl vm, .inr ⟨nofun, by simpa using hpaused⟩⟩

/-- A call is rejected and changes nothing, or it is accepted while no call is halted and answered by
where it left the call. -/
theorem call_rest {vm vm' : Debuggee} {fuel : Nat} {name : String} {args : Array Int32}
    {answer : Except RunError Stop} (h : vm.call fuel name args = some (answer, vm')) :
    (vm' = vm ∧ ∃ error, answer = .error error) ∨
      (vm.isPaused = false ∧ SameProgram vm vm' ∧
        ((answer = .ok .paused ∧ ∃ place, vm'.haltedAt? = some place) ∨
          (answer ≠ .ok .paused ∧ vm'.isPaused = false))) := by
  rw [call] at h
  split at h
  · cases h
    exact .inl ⟨rfl, _, rfl⟩
  · rename_i hidle
    split at h
    · cases h
      exact .inl ⟨rfl, _, rfl⟩
    · split at h
      · cases h
        exact .inl ⟨rfl, _, rfl⟩
      · rename_i function _
        obtain ⟨⟨hprogram, hid⟩, hrest⟩ := run_rest h
        refine .inr ⟨by simpa using hidle, ⟨hprogram, hid⟩, ?_⟩
        rcases hrest with ⟨hanswer, hstate, hframes⟩ | ⟨hanswer, hstate⟩
        · refine .inl ⟨hanswer, ?_⟩
          rw [haltedAt?_of_isPaused (by rw [isPaused, hstate]; rfl)]
          exact location?_eq_some hframes
        · exact .inr ⟨hanswer, by rw [isPaused, hstate]; rfl⟩

/-- A call leaves the program alone, whether or not it is accepted. -/
theorem sameProgram_call {vm vm' : Debuggee} {fuel : Nat} {name : String} {args : Array Int32}
    {answer : Except RunError Stop} (h : vm.call fuel name args = some (answer, vm')) :
    SameProgram vm vm' := by
  obtain ⟨rfl, -⟩ | ⟨-, hsame, -⟩ := call_rest h
  · exact .refl vm'
  · exact hsame

end Debuggee

end BytecodeDebugger
