import BytecodeDebugger.Proofs.Session

/-!
# Where a run fails

A run fails at the instruction that it is about to execute. Since a machine on a patched location is
trapped there, that instruction is never a patched one, and a single step fails at the location it
starts from. So of the breakpoints that are patched when a run starts, none is lost by its failure;
what is lost is a breakpoint that was taken out for the step that fails.
-/

namespace BytecodeDebugger

/-! ## The failing instruction -/

namespace Execute

theorem frame_unary (f : Int32 → Int32) (frame : Frame) (stack : Operands) :
    (unary f frame stack).frame = frame := by
  rw [unary]
  split <;> rfl

theorem frame_binary (f : Int32 → Int32 → Except Fault Int32) (frame : Frame) (stack : Operands) :
    (binary f frame stack).frame = frame := by
  rw [binary]
  split
  · rfl
  · split
    · rfl
    · split <;> rfl

theorem frame_jumpIf (taken : Int32 → Bool) (offset : Int32) (frame : Frame) (stack : Operands) :
    (jumpIf taken offset frame stack).frame = frame := by
  rw [jumpIf]
  split <;> rfl

theorem frame_read (offset : Int32) (frame : Frame) (stack : Operands) :
    (read offset frame stack).frame = frame := by
  rw [read]
  split
  · rfl
  · split <;> rfl

theorem frame_write (offset : Int32) (frame : Frame) (stack : Operands) :
    ∃ memory, (write offset frame stack).frame = { frame with memory } := by
  rw [write]
  split
  · exact ⟨_, rfl⟩
  · split
    · exact ⟨_, rfl⟩
    · split <;> exact ⟨_, rfl⟩

theorem frame_discard (count : Int32) (frame : Frame) (stack : Operands) :
    (discard count frame stack).frame = frame := by
  rw [discard]
  split <;> rfl

end Execute

section Instructions

open Execute

variable (i : Instruction) (frame : Frame) (stack : Operands)

/-- Only a write changes its frame. -/
theorem frame_execute_of_ne_write (h : i.op ≠ .write) : (execute i frame stack).frame = frame := by
  cases hop : i.op <;> simp only [execute, hop]
  case write => exact absurd hop h
  case read => exact frame_read _ _ _
  case pop => exact frame_discard _ _ _
  case jumpZero | jumpNonzero => exact frame_jumpIf _ _ _ _
  case truth | negate => exact frame_unary _ _ _
  all_goals exact frame_binary _ _ _

/-- An instruction changes nothing of its frame but the memory. -/
theorem frame_execute : ∃ memory, (execute i frame stack).frame = { frame with memory } := by
  by_cases hop : i.op = .write
  · simp only [execute, hop]
    exact frame_write _ _ _
  · exact ⟨frame.memory, frame_execute_of_ne_write i frame stack hop⟩

end Instructions

namespace Machine

variable {program p : Program} {m : Machine} {place : Location} {fault : Fault} {stack : Operands}

/-- A call that cannot be entered fails at the call instruction. -/
theorem place_of_enter {arithmetic : WordArithmetic} {index : Int} {frame : Frame}
    {callers : List Frame} {operands : Operands}
    (h : enter arithmetic program index frame callers operands =
      some (.faulted place fault stack)) : place = ⟨frame.function, frame.pc⟩ := by
  rw [enter] at h
  split at h
  · cases h
    rfl
  · obtain ⟨taken, -, htaken⟩ := Option.map_eq_some_iff.mp h
    cases taken with
    | error _ =>
      cases htaken
      rfl
    | ok _ => cases htaken

/-- The instruction that fails is the one that the innermost frame stands at. -/
theorem location?_of_faulted (h : m.step program = some (.faulted place fault stack)) :
    m.location? = some place := by
  obtain ⟨frames, operands⟩ := m
  cases frames with
  | nil => cases h
  | cons frame callers =>
    have hlocation : location? ⟨frame :: callers, operands⟩ = some ⟨frame.function, frame.pc⟩ := rfl
    rw [hlocation, Option.some.injEq, eq_comm]
    simp only [step, stepIn] at h
    split at h
    · cases h
      rfl
    · rename_i i hfetch
      obtain ⟨memory, hframe⟩ := frame_execute i frame operands
      generalize execute i frame operands = effect at h hframe
      obtain ⟨outcome, after, rest⟩ := effect
      cases outcome with
      | error fault =>
        cases h
        rfl
      | ok outcome =>
        cases outcome with
        | call index => rw [place_of_enter h, show after = { frame with memory } from hframe]
        | ret => cases callers <;> cases h
        | next pc => cases h
        | halt => cases h

/-- On a patched location a machine is trapped, so nothing fails there. -/
theorem not_isPatched_of_faulted (h : m.step p = some (.faulted place fault stack)) :
    p.isPatched place = false := by
  have hlocation := location?_of_faulted h
  rw [step_eq] at h
  split at h
  · cases h
  · rename_i hpatch
    rw [onPatch, hlocation, Option.any_some] at hpatch
    simpa using hpatch

end Machine

/-! ## Failed run requests -/

namespace RunError

/-- The location of the instruction that failed, if one did. -/
def failedAt? : RunError → Option Location
  | .fault place _ => some place
  | _ => none

end RunError

namespace Debuggee

variable {vm vm' : Debuggee} {fuel : Nat} {error : RunError}

/-- A run request that came to rest by a transition is answered by an error only if that is a
failure. -/
theorem eq_faulted_of_served {t : Transition} (h : (vm.served t).1 = .error error) :
    ∃ place fault stack, t = .faulted place fault stack ∧ error = .fault place fault := by
  have hhalt (m : Machine) (h : ({ vm with state := .running }.halt m).1 = .error error) :
      False := by
    rw [halt] at h
    split at h <;> cases h
  cases t with
  | moved m => exact (hhalt m h).elim
  | trapped m => exact (hhalt m h).elim
  | finished value stack => cases h
  | idle stack => cases h
  | faulted place fault stack =>
    cases h
    exact ⟨place, fault, stack, rfl, rfl⟩

/-- Why a run request is answered by an error: there is no program, or an instruction failed. That
instruction is not a patched one, and it is the one that a single step starts from. -/
theorem run_error (h : vm.run fuel = some (.error error, vm')) :
    match error.failedAt? with
    | none => vm.program = none
    | some place =>
      vm.isPatched place = false ∧ (vm.stepping = true → vm.machine.location? = some place) := by
  cases hp : vm.program with
  | none =>
    simp only [run, hp] at h
    cases h
    rfl
  | some p =>
    obtain ⟨k, last, t, hafter, hfirst, hstep, hserved⟩ := exists_last_step hp h
    obtain ⟨place, fault, stack, rfl, rfl⟩ := eq_faulted_of_served (congrArg Prod.fst hserved)
    refine ⟨?_, fun hstepping => ?_⟩
    · rw [isPatched, hp, Option.any_some]
      exact Machine.not_isPatched_of_faulted hstep
    · rw [hfirst hstepping] at hafter
      cases hafter
      exact Machine.location?_of_faulted hstep

/-- Why a request to resume is answered by an error. -/
theorem resume_error (h : vm.resume fuel = some (.error error, vm')) :
    match error.failedAt? with
    | none => vm.isPaused = false ∨ vm.program = none
    | some place =>
      vm.isPatched place = false ∧ (vm.stepping = true → vm.haltedAt? = some place) := by
  rw [resume] at h
  split at h
  · rename_i hpaused
    have hrun := run_error h
    rw [haltedAt?_of_isPaused hpaused]
    split <;> rename_i hfailed <;> rw [hfailed] at hrun
    · exact .inr hrun
    · exact hrun
  · rename_i hpaused
    cases h
    exact .inl (by simpa using hpaused)

/-- A call that is answered by an error was rejected, or it was begun while no call was halted and
failed at a location that is not patched. -/
theorem call_error {name : String} {args : Array Int32}
    (h : vm.call fuel name args = some (.error error, vm')) :
    match error.failedAt? with
    | none => vm' = vm
    | some place =>
      vm.isPaused = false ∧ vm'.isPaused = false ∧ SameProgram vm vm' ∧
        vm.isPatched place = false := by
  rw [call] at h
  split at h
  · cases h
    rfl
  · rename_i hidle
    split at h
    · cases h
      rfl
    · rename_i p hp
      split at h
      · cases h
        rfl
      · have hwhy := run_error h
        obtain ⟨⟨hprogram, hid⟩, ⟨hanswer, -⟩ | ⟨-, hstate⟩⟩ := run_rest h
        · cases hanswer
        · cases hfailed : error.failedAt? with
          | none =>
            rw [hfailed] at hwhy
            cases hp.symm.trans hwhy
          | some place =>
            rw [hfailed] at hwhy
            refine ⟨by simpa using hidle, ?_, ⟨hprogram, hid⟩, hwhy.1⟩
            rw [isPaused, hstate]
            rfl

end Debuggee

namespace DebugError

/-- The location of the instruction that failed, if one did. -/
def failedAt? : DebugError → Option Location
  | .run error => error.failedAt?
  | .notPaused _ => none

end DebugError

/-- The location at which a run failed, if the answer to a request says so. -/
def failedAt? {α : Type} : Except DebugError α → Option Location
  | .ok _ => none
  | .error error => error.failedAt?

theorem failedAt?_map {α β : Type} (f : α → β) (answer : Except DebugError α) :
    failedAt? (answer.map f) = failedAt? answer := by
  cases answer <;> rfl

namespace Reply

/-- The location at which a run failed, if the reply says so. -/
def failedAt? (reply : Reply) : Option Location :=
  match reply.ending? with
  | some (.faulted place _) => some place
  | _ => none

theorem isFault_eq (reply : Reply) : reply.isFault = reply.failedAt?.isSome := by
  rw [isFault, failedAt?]
  match reply.ending? with
  | none => rfl
  | some (.returned value) => rfl
  | some (.faulted place fault) => rfl

/-- A reply names the failure that the answer of the debugger does. -/
theorem failedAt?_ofDebug {α : Type} {served : α → Reply}
    (hserved : ∀ value, (served value).failedAt? = none) (answer : Except DebugError α) :
    (Reply.ofDebug served answer).failedAt? = BytecodeDebugger.failedAt? answer := by
  match answer with
  | .ok value => exact hserved value
  | .error (.notPaused command) => rfl
  | .error (.run error) => cases error <;> rfl

end Reply

/-! ## Breakpoints after a failed run -/

namespace Debugger

variable {d d' : Debugger} {fuel : Nat} {error : RunError} {place : Location}

/-- Every breakpoint of the loaded program is patched, but for the one that the call is halted on. -/
def Armed (d : Debugger) : Prop :=
  ∀ place, d.isBreakpoint place = true → d.vm.isPatched place = false → d.vm.haltedAt? = some place

/-- A run failed at a location: no call is halted, and every breakpoint of the loaded program is
patched but the one there. -/
structure FailedAt (place : Location) (d : Debugger) : Prop where
  notPaused : d.vm.isPaused = false
  isPatched_iff : ∀ other, d.isBreakpoint other = true →
    (d.vm.isPatched other = true ↔ other ≠ place)

/-- How the breakpoints are left by a request that failed at a location, or did not fail. -/
def ArmedAfter (d : Debugger) : Option Location → Prop
  | none => d.Armed
  | some place => d.FailedAt place

/-- The channels of a debugger and its line table say nothing about its traps. -/
theorem ArmedAfter.congr {failedAt : Option Location} (hvm : d'.vm = d.vm)
    (hset : d'.breakpoints = d.breakpoints) (h : d.ArmedAfter failedAt) :
    d'.ArmedAfter failedAt := by
  have hbreakpoint (place : Location) : d'.isBreakpoint place = d.isBreakpoint place := by
    rw [isBreakpoint, hasBreakpoint, hset, hvm]
    rfl
  cases failedAt with
  | none =>
    intro place hplace hfree
    rw [hbreakpoint] at hplace
    rw [hvm] at hfree ⊢
    exact h place hplace hfree
  | some failed =>
    refine ⟨hvm ▸ h.notPaused, fun place hplace => ?_⟩
    rw [hvm]
    exact h.isPatched_iff place ((hbreakpoint place).symm.trans hplace)

theorem isBreakpoint_of_program_eq_none (h : d.vm.program = none) (place : Location) :
    d.isBreakpoint place = false := by
  rw [isBreakpoint, Debuggee.hasAddress, Debuggee.plain?, h]
  exact Bool.and_false _

theorem Armed.isPatched_of_haltedAt?_ne (h : d.Armed) (hplace : d.isBreakpoint place = true)
    (hat : d.vm.haltedAt? ≠ some place) : d.vm.isPatched place = true := by
  cases hpatched : d.vm.isPatched place with
  | true => rfl
  | false => exact absurd (h place hplace hpatched) hat

/-- Without a halted call every breakpoint is patched. -/
theorem Armed.isPatched (h : d.Armed) (hover : d.vm.isPaused = false)
    (hplace : d.isBreakpoint place = true) : d.vm.isPatched place = true := by
  apply h.isPatched_of_haltedAt?_ne hplace
  rw [Debuggee.haltedAt?_of_not_isPaused hover]
  nofun

theorem armed_of_isPatched
    (h : ∀ place, d.isBreakpoint place = true → d.vm.isPatched place = true) : d.Armed := by
  intro place hplace hfree
  rw [h place hplace] at hfree
  cases hfree

/-- A failure at a location that is not patched costs the breakpoint there, if there is one, and no
other. -/
theorem failedAt_of_resumed (hresumed : d.Resumed d') (hover : d'.vm.isPaused = false)
    (hfree : d.vm.isPatched place = false)
    (hall : ∀ other, d.isBreakpoint other = true → other ≠ place → d.vm.isPatched other = true) :
    d'.FailedAt place := by
  refine ⟨hover, fun other hother => ?_⟩
  have hpatched : d'.vm.isPatched other = d.vm.isPatched other := by
    rw [hresumed.isPatched, Debuggee.haltedAt?_of_not_isPaused hover]
    simp
  rw [hpatched]
  constructor
  · rintro hother rfl
    rw [hfree] at hother
    cases hother
  · exact hall other ((hresumed.isBreakpoint other).symm.trans hother)

/-- What a request to resume leaves behind that is answered by an error. A breakpoint may be without
a trap only if the request is a single step, which fails where it starts. -/
theorem Armed.of_resume_error {vm : Debuggee} (hd : d.Armed)
    (hsingle : ∀ place, d.isBreakpoint place = true → d.vm.isPatched place = false →
      d.vm.stepping = true)
    (h : d.vm.resume fuel = some (.error error, vm)) :
    ({ d with vm } : Debugger).ArmedAfter error.failedAt? := by
  obtain ⟨hsame, ⟨hanswer, -⟩ | ⟨-, hover⟩⟩ := Debuggee.resume_rest h
  · cases hanswer
  have hresumed := resumed_of_not_isPaused hsame hover
  have hwhy := Debuggee.resume_error h
  cases hfailed : error.failedAt? with
  | some place =>
    rw [hfailed] at hwhy
    refine failedAt_of_resumed hresumed hover hwhy.1 fun other hother hne => ?_
    cases hpatched : d.vm.isPatched other with
    | true => rfl
    | false =>
      have hat := hd other hother hpatched
      rw [hwhy.2 (hsingle other hother hpatched), Option.some.injEq] at hat
      exact absurd hat.symm hne
  | none =>
    rw [hfailed] at hwhy
    refine armed_of_isPatched fun place hplace => ?_
    have hbefore : d.isBreakpoint place = true := (hresumed.isBreakpoint place).symm.trans hplace
    have hpatched : vm.isPatched place = d.vm.isPatched place := hsame.isPatched place
    rcases hwhy with hidle | hnone
    · exact hpatched.trans (hd.isPatched hidle hbefore)
    · rw [isBreakpoint_of_program_eq_none hnone] at hbefore
      cases hbefore

/-- What a call leaves behind that is answered by an error. -/
theorem Armed.of_call_error {vm : Debuggee} {name : String} {args : Array Int32} (hd : d.Armed)
    (h : d.vm.call fuel name args = some (.error error, vm)) :
    ({ d with vm } : Debugger).ArmedAfter error.failedAt? := by
  have hwhy := Debuggee.call_error h
  cases hfailed : error.failedAt? with
  | none =>
    rw [hfailed] at hwhy
    cases hwhy
    exact hd
  | some place =>
    rw [hfailed] at hwhy
    obtain ⟨hidle, hover, hsame, hfree⟩ := hwhy
    refine failedAt_of_resumed (resumed_of_not_isPaused hsame hover) hover hfree ?_
    exact fun other hother _ => hd.isPatched hidle hother

end Debugger

end BytecodeDebugger
