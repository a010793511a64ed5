import BytecodeDebugger.Proofs.DebuggerStops
import Mathlib.Order.Bounds.Basic

/-!
# Where stepping over a call stops

`stepNext` runs a call by a temporary trap in the calling routine. It stops at the first machine of
the plain trace, after at least one instruction, that stands on a breakpoint of the loaded program
or where the calling routine goes on: at its first address after the call that has a span, or at its
last address. The trap is one of a location, not of a frame, so a call of the same routine further
in can stop there before. Given on any other instruction, `stepNext` stops where `stepInto` does.

## Implementation notes

A routine that has a call in it has a last address. So there is always a location to go on at, and
the command never stops right after the call for want of one.
-/

namespace BytecodeDebugger

namespace SortedMap

variable {α : Type} {m : SortedMap Nat α} {key : Nat}

/-- The first binding from a key on has the least of the bound keys that are not below it. -/
theorem isLeast_of_firstFrom? {entry : Nat × α} (h : m.firstFrom? key = some entry) :
    IsLeast {k | key ≤ k ∧ (m.get? k).isSome} entry.1 := by
  obtain ⟨hfrom, before, after, hentries, hbefore⟩ := List.find?_eq_some_iff_append.mp h
  have hmem : entry ∈ m.entries := by simp [hentries]
  constructor
  · refine ⟨?_, ?_⟩
    · simpa [Nat.compare_eq_lt] using hfrom
    · rw [← contains_eq_isSome_get?]
      exact contains_eq_true_iff.mpr ⟨entry.2, hmem⟩
  · rintro k ⟨hle, hbound⟩
    rw [← contains_eq_isSome_get?] at hbound
    obtain ⟨value, hvalue⟩ := contains_eq_true_iff.mp hbound
    have hsorted := m.sorted
    rw [hentries] at hvalue hsorted
    rcases List.mem_append.mp hvalue with hearlier | hlater
    · have hbelow := hbefore (k, value) hearlier
      simp only [Bool.not_eq_true', bne_eq_false_iff_eq, Nat.compare_eq_lt] at hbelow
      omega
    · rcases List.mem_cons.mp hlater with rfl | hlater
      · exact Nat.le_refl k
      · have habove := (List.pairwise_cons.mp (List.pairwise_append.mp hsorted).2.1).1 _ hlater
        exact Nat.le_of_lt (Nat.compare_eq_lt.mp habove)

theorem get?_eq_none_of_firstFrom? (h : m.firstFrom? key = none) {k : Nat} (hle : key ≤ k) :
    m.get? k = none := by
  rw [← Option.not_isSome_iff_eq_none, ← contains_eq_isSome_get?]
  intro hbound
  obtain ⟨value, hvalue⟩ := contains_eq_true_iff.mp hbound
  have hbelow := List.find?_eq_none.mp h (k, value) hvalue
  simp only [bne_iff_ne, ne_eq, Nat.compare_eq_lt, not_not] at hbelow
  omega

end SortedMap

/-- An instruction lies within the code. -/
theorem Code.lt_size_of_instructionAt? (c : Code) {address : Nat} {i : Instruction}
    (h : c.instructionAt? address = some i) : address < c.size := by
  rw [← getElem?_instructions] at h
  obtain ⟨hlt, -⟩ := Array.getElem?_eq_some_iff.mp h
  simpa [instructions, size] using hlt

namespace Routine

/-- The address at which a routine goes on after a call, as far as its spans tell: the first address
after the call that has one, or the last address of the code if there is none. -/
def GoesOnAt (r : Routine) (call target : Nat) : Prop :=
  IsLeast {address | call + 1 ≤ address ∧ (r.spanAt? address).isSome} target ∨
    (∀ address, call + 1 ≤ address → r.spanAt? address = none) ∧ target + 1 = r.code.size

variable {r : Routine} {call target target' : Nat}

theorem GoesOnAt.unique (h : r.GoesOnAt call target) (h' : r.GoesOnAt call target') :
    target = target' := by
  rcases h with hleast | ⟨hnone, hlast⟩ <;> rcases h' with hleast' | ⟨hnone', hlast'⟩
  · exact hleast.unique hleast'
  · have hspan := hleast.1.2
    rw [hnone' target hleast.1.1] at hspan
    cases hspan
  · have hspan := hleast'.1.2
    rw [hnone target' hleast'.1.1] at hspan
    cases hspan
  · omega

theorem goesOnAt_unpatched : r.unpatched.GoesOnAt call target ↔ r.GoesOnAt call target := by
  have hsize : r.unpatched.code.size = r.code.size := r.code.size_restoreAll
  rw [GoesOnAt, GoesOnAt, hsize]
  rfl

end Routine

namespace Machine

/-- The next instruction of a machine, as it was written, is a call. -/
def AtCall (program : Program) (m : Machine) : Prop :=
  ∃ place i, m.location? = some place ∧ program.instructionAt? place = some i ∧ i.op = .call

/-- The location at which the routine of the innermost frame goes on after a call. -/
def GoesOnAt (program : Program) (m : Machine) (target : Location) : Prop :=
  ∃ place r, m.location? = some place ∧ program.routine? place.function = some r ∧
    target.function = place.function ∧ r.GoesOnAt place.address target.address

theorem GoesOnAt.unique {program : Program} {m : Machine} {target target' : Location}
    (h : m.GoesOnAt program target) (h' : m.GoesOnAt program target') : target = target' := by
  obtain ⟨place, r, hplace, hr, hfunction, hgoes⟩ := h
  obtain ⟨place', r', hplace', hr', hfunction', hgoes'⟩ := h'
  cases hplace.symm.trans hplace'
  cases hr.symm.trans hr'
  cases target
  cases target'
  cases hfunction.trans hfunction'.symm
  cases hgoes.unique hgoes'
  rfl

end Machine

namespace Debugger

variable {d e : Debugger} {marks : Location → Bool} {program : Program} {m next : Machine}
  {place target : Location}

/-! ## The location to go on at -/

theorem routine?_of_program {p : Program} (hp : d.vm.program = some p) (place : Location) :
    d.routine? ⟨d.vm.programId, place.function, place.address⟩ = p.routine? place.function := by
  have hcurrent : d.isCurrent ⟨d.vm.programId, place.function, place.address⟩ = true :=
    beq_self_eq_true _
  rw [routine?, if_pos hcurrent, hp, Option.bind_some]

/-- The routine of a frame, without its patches, is told by the program as it was written. -/
theorem map_routine?_eq (d : Debugger) (frame : FrameInfo) :
    (d.routine? frame).map Routine.unpatched =
      if frame.program = d.vm.programId then
        d.vm.plain?.bind fun program => program.routine? frame.function
      else none := by
  by_cases hcurrent : frame.program = d.vm.programId
  · have hown : d.isCurrent frame = true := beq_iff_eq.mpr hcurrent
    rw [routine?, if_pos hown, if_pos hcurrent, Debuggee.plain?]
    cases d.vm.program with
    | none => rfl
    | some program => exact (program.routine?_unpatched frame.function).symm
  · have hforeign : d.isCurrent frame = false := beq_false_of_ne hcurrent
    rw [routine?, hforeign, if_neg Bool.false_ne_true, if_neg hcurrent, Option.map_none]

/-- A debugger stands at a call if its machine does. -/
theorem standsAtCall_iff (h : d.vm.PausedIn program m) (hplace : m.location? = some place) :
    d.standsAtCall ⟨d.vm.programId, place.function, place.address⟩ = true ↔ m.AtCall program := by
  have hinstruction :
      ((d.routine? ⟨d.vm.programId, place.function, place.address⟩).bind fun r =>
        r.code.instructionAt? place.address) = program.instructionAt? place := by
    obtain ⟨p, hp, rfl⟩ := h.live
    rw [routine?_of_program hp, Program.instructionAt?_unpatched, Program.instructionAt?]
  rw [standsAtCall, hinstruction, Option.any_eq_true]
  constructor
  · rintro ⟨i, hi, hcall⟩
    exact ⟨place, i, hplace, hi, eq_of_beq hcall⟩
  · rintro ⟨place', i, hplace', hi, hcall⟩
    cases hplace.symm.trans hplace'
    exact ⟨i, hi, beq_iff_eq.mpr hcall⟩

/-- In a routine that has code there is a location to go on at. -/
theorem exists_overTarget? {origin : FrameInfo} {r : Routine} (hr : d.routine? origin = some r)
    (hsize : 0 < r.code.size) :
    ∃ address, d.overTarget? origin = some ⟨origin.function, address⟩ ∧
      r.GoesOnAt origin.pc address := by
  rw [overTarget?, hr, Option.bind_some]
  cases hspan : r.spanFrom? (origin.pc + 1) with
  | some entry => exact ⟨entry.1, rfl, .inl (SortedMap.isLeast_of_firstFrom? hspan)⟩
  | none =>
    refine ⟨r.code.size - 1, if_neg (by omega), .inr ⟨fun address hle => ?_, by omega⟩⟩
    exact SortedMap.get?_eq_none_of_firstFrom? hspan hle

/-- Stepping over a call always has a location to go on at, which does not depend on how far the
call went. -/
theorem exists_overTarget?_of_atCall (he : e.vm.PausedIn program next) (hcall : m.AtCall program)
    (hplace : m.location? = some place) :
    ∃ target, e.overTarget? ⟨e.vm.programId, place.function, place.address⟩ = some target ∧
      m.GoesOnAt program target := by
  obtain ⟨place', i, hplace', hi, -⟩ := hcall
  cases hplace.symm.trans hplace'
  have hroutine := e.map_routine?_eq ⟨e.vm.programId, place.function, place.address⟩
  rw [if_pos rfl, he.plain, Option.bind_some] at hroutine
  obtain ⟨written, hwritten, hcode⟩ := Option.bind_eq_some_iff.mp hi
  rw [hwritten] at hroutine
  obtain ⟨r, hr, rfl⟩ := Option.map_eq_some_iff.mp hroutine
  have hsize : 0 < r.code.size := by
    have hlt := r.unpatched.code.lt_size_of_instructionAt? hcode
    have heq : r.unpatched.code.size = r.code.size := r.code.size_restoreAll
    omega
  obtain ⟨address, htarget, hgoes⟩ := Debugger.exists_overTarget? hr hsize
  exact ⟨_, htarget, place, r.unpatched, hplace, hwritten, rfl, Routine.goesOnAt_unpatched.mpr hgoes⟩

/-! ## The run over a call -/

/-- The debugger as it resumes the call that `stepNext` runs over, with its trap at a location. -/
def armedAt (d : Debugger) (target : Location) : Debugger :=
  (d.rearmAll.patch target).2.setStepping false

theorem sameCall_armedAt (d : Debugger) (target : Location) :
    Debuggee.SameCall d.vm (d.armedAt target).vm :=
  (d.sameCall_rearmAll.trans (d.rearmAll.vm.sameCall_patch target)).trans
    (Debuggee.sameCall_setStepping _ false)

theorem isPatched_armedAt (d : Debugger) (target place : Location) :
    (d.armedAt target).vm.isPatched place =
      (d.vm.isPatched place || d.isBreakpoint place ||
        (decide (target = place) && d.vm.hasAddress target)) := by
  rw [← isPatched_rearmAll, ← d.sameCall_rearmAll.hasAddress]
  exact d.rearmAll.vm.isPatched_patch target place

/-- With the temporary trap, a run over a call comes to rest at the first breakpoint of the loaded
program, or where the calling routine goes on. -/
theorem Ready.comesToRest_runOverCall {origin : FrameInfo} (h : Ready marks program m d)
    (htarget : d.overTarget? origin = some target) (stepped : StepOutcome) :
    ComesToRest (d.runOverCall · origin stepped)
      (m.RestsFrom program fun m => m.location?.any d.isBreakpoint = true ∨
        m.location? = some target ∧ program.hasAddress target = true)
      (Rest.Answered d.vm.programId true) := by
  have hsame := d.sameCall_armedAt target
  have haddress : d.vm.hasAddress target = program.hasAddress target := by
    rw [Debuggee.hasAddress, h.halted.plain, Option.any_some]
  have hpatched (place : Location) : (d.armedAt target).vm.isPatched place =
      (d.isBreakpoint place || (decide (target = place) && program.hasAddress target)) := by
    rw [isPatched_armedAt, haddress, ← isPatched_rearmAll, h.covered.isPatched_rearmAll_eq]
  have hstops (m : Machine) : m.location?.any (d.armedAt target).vm.isPatched = true ↔
      m.location?.any d.isBreakpoint = true ∨
        m.location? = some target ∧ program.hasAddress target = true := by
    cases m.location? with
    | none => simp
    | some place =>
      rw [Option.any_some, Option.any_some, hpatched, Bool.or_eq_true_iff, Bool.and_eq_true_iff,
        decide_eq_true_iff, Option.some.injEq, @eq_comm _ target place]
  have hrun := (Debugger.comesToRest_resume (h.halted.of_sameCall hsame) rfl).map
    (f := fun _ e => if (d.rearmAll.patch target).1 then (e.restore target).2 else e)
    fun _ e => by
      split
      · exact e.vm.sameCall_restore target
      · exact .refl e.vm
  simp only [hstops, hsame.programId] at hrun
  have heq : (d.runOverCall · origin stepped) = _ :=
    funext fun fuel => runOverCall_eq fuel stepped htarget
  rw [heq]
  exact hrun

/-- Given on a call, `stepNext` executes it and runs on. -/
theorem stepNext_of_standsAtCall {origin : FrameInfo} (horigin : d.pausedFrame? = some origin)
    (hstands : d.standsAtCall origin = true) (fuel : Nat) :
    d.stepNext fuel =
      d.stepThen (fun frame e fuel => e.runOverCall fuel origin (.paused frame false)) fuel := by
  rw [stepNext, stepThen]
  simp only [horigin, hstands]
  rcases d.stepInstruction fuel with _ | ⟨error | outcome, e⟩
  · rfl
  · rfl
  · cases outcome with
    | paused frame onBreakpoint => cases onBreakpoint <;> rfl
    | finished value => rfl

/-- Given on a call, `stepNext` comes to rest at the first breakpoint of the loaded program, or where
the calling routine goes on. -/
theorem Ready.comesToRest_stepNext (h : Ready marks program m d) (hcall : m.AtCall program)
    (hgoes : m.GoesOnAt program target) :
    ComesToRest (d.stepNext ·)
      (m.RestsAt program fun m => m.location?.any d.isBreakpoint = true ∨
        m.location? = some target ∧ program.hasAddress target = true)
      (Rest.Answered d.vm.programId true) := by
  obtain ⟨first, hfirst⟩ := Debuggee.location?_eq_some h.halted.frames_ne_nil
  have hstands := (standsAtCall_iff h.halted.pausedIn hfirst).mpr hcall
  have horigin := pausedFrame?_eq h.halted.pausedIn hfirst
  have hcommand := funext (stepNext_of_standsAtCall horigin hstands)
  rw [hcommand]
  apply h.comesToRest_stepThen
  · exact fun m hm => .inl hm
  · intro frame next e he hid
    obtain ⟨target', htarget, hgoes'⟩ :=
      exists_overTarget?_of_atCall he.halted.pausedIn hcall hfirst
    cases hgoes.unique hgoes'
    rw [← hid, ← h.isBreakpoint_eq he]
    exact he.comesToRest_runOverCall htarget (.paused frame false)

/-! ## Other instructions -/

/-- Given on another instruction, `stepNext` does what `stepInto` does, within a bound that is larger
by one. -/
theorem stepNext_eq (h : d.vm.PausedIn program m) (hcall : ¬m.AtCall program) (fuel : Nat) :
    d.stepNext fuel = d.stepInto (fuel + 1) := by
  obtain ⟨first, hfirst⟩ := Debuggee.location?_eq_some h.frames_ne_nil
  have hstands := standsAtCall_iff h hfirst
  rw [iff_false_right hcall, Bool.not_eq_true] at hstands
  rw [stepNext, stepInto, stepToStopPoint]
  simp only [pausedFrame?_eq h hfirst, hstands]
  rcases d.stepInstruction fuel with _ | ⟨error | outcome, e⟩
  · rfl
  · rfl
  · cases outcome with
    | paused frame onBreakpoint => cases onBreakpoint <;> rfl
    | finished value => rfl

end Debugger

/-! ## Sessions -/

namespace Host

open Debugger (ComesToRest)

variable {d₀ d : Debugger} {program : Program} {failed : Bool}

/-- In a session of a debugger, also after failed runs, `stepNext` comes to rest exactly where the
plain trace does. Given on a call, there is always a location at which the calling routine goes on,
so the command runs on after its first instruction, to the first breakpoint of the loaded program or
to that location, if it is within range. Given on another instruction, the command comes to rest at
the first location that is in the set of breakpoints or has a span. -/
theorem Session.stepNext_stops (hnew : d₀.IsNew)
    (hsession : Session Operation.IsDebugging (.debugger d₀) failed (.debugger d))
    (hprogram : d.vm.plain? = some program) (hpaused : d.vm.isPaused = true) :
    (d.vm.machine.AtCall program → ∃ target, d.vm.machine.GoesOnAt program target ∧
      (∀ fuel origin frame onBreakpoint e, d.pausedFrame? = some origin →
        d.stepInstruction fuel = some (.ok (.paused frame onBreakpoint), e) →
        e.overTarget? origin = some target) ∧
      ComesToRest (d.stepNext ·)
        (d.vm.machine.RestsAt program fun m => m.location?.any d.isBreakpoint = true ∨
          m.location? = some target ∧ program.hasAddress target = true)
        (Rest.Answered d.vm.programId true)) ∧
    (¬d.vm.machine.AtCall program →
      ComesToRest (d.stepNext ·)
        (d.vm.machine.RestsAt program fun m =>
          m.location?.any d.hasBreakpoint = true ∨ (m.span? program).isSome = true)
        (fun rest answer => ∃ onBreakpoint, rest.Answered d.vm.programId onBreakpoint answer)) := by
  have hready := hsession.ready hnew hprogram hpaused
  obtain ⟨first, hfirst⟩ := Debuggee.location?_eq_some hready.halted.frames_ne_nil
  constructor
  · intro hcall
    obtain ⟨target, -, hgoes⟩ :=
      Debugger.exists_overTarget?_of_atCall hready.halted.pausedIn hcall hfirst
    refine ⟨target, hgoes, ?_, hready.comesToRest_stepNext hcall hgoes⟩
    intro fuel origin frame onBreakpoint e horigin hstep
    cases horigin.symm.trans (Debugger.pausedFrame?_eq hready.halted.pausedIn hfirst)
    cases hready.stepLeads with
    | moved next place onBreakpoint' e' _ _ he hid _ hanswer =>
      cases (hanswer fuel).symm.trans hstep
      obtain ⟨target', htarget, hgoes'⟩ :=
        Debugger.exists_overTarget?_of_atCall he.halted.pausedIn hcall hfirst
      cases hgoes.unique hgoes'
      rwa [hid] at htarget
    | ended ending e' _ _ hanswer =>
      rw [hanswer] at hstep
      cases ending <;> cases hstep
    | stopped _ hanswer =>
      rw [hanswer] at hstep
      cases hstep
  · intro hcall
    have hstepNext : (d.stepNext ·) = fun fuel => d.stepInto (fuel + 1) :=
      funext fun fuel => Debugger.stepNext_eq hready.halted.pausedIn hcall fuel
    rw [hstepNext]
    exact hready.comesToRest_stepToStopPoint.reported.shift

end Host

/-- A program whose only instruction calls the routine that it is in. -/
def Program.descent : Program :=
  single "descent" #[{ op := .call }]

/-- A debugger whose call was halted after one instruction, in the second frame. -/
def Debugger.inDescent : Debugger :=
  match (({} : Debugger).load .descent).2.pause.call 9 "descent" #[] with
  | some (_, d) => d
  | none => {}

theorem Host.Session.inDescent :
    Session Operation.IsDebugging (.debugger {}) false (.debugger .inDescent) := by
  have hloaded : Session Operation.IsDebugging (.debugger {}) false
      (.debugger (({} : Debugger).load .descent).2) :=
    .perform .new (show Program.descent.IsPlain ∧ Program.descent.TrapFree by decide)
      (show Host.perform 0 _ (.debugger (.load .descent)) = some _ from rfl)
  have hpaused := hloaded.perform (by exact trivial)
    (show Host.perform 0 _ (.debugger .pause) = some _ from rfl)
  exact hpaused.perform (by exact trivial)
    (show Host.perform 9 _ (.debugger (.call "descent" #[])) =
      some (.stopped .paused, .debugger .inDescent) from rfl)

/-- The last address of the routine is the call itself, so stepping over it goes on at the entry of
the frame that the call makes, without a breakpoint there. -/
theorem Host.Session.stepNext_stops_descent :
    Debugger.inDescent.vm.haltedAt? = some ⟨0, 0⟩ ∧ Debugger.inDescent.vm.depth = 2 ∧
      Debugger.inDescent.hasBreakpoint ⟨0, 0⟩ = false ∧
      ∃ d bound, d.vm.haltedAt? = some ⟨0, 0⟩ ∧ d.vm.depth = 3 ∧
        ∀ fuel ≥ bound,
          Debugger.inDescent.stepNext fuel = some (.ok (.paused ⟨⟨0⟩, 0, 0⟩ true), d) := by
  let next : Machine := ⟨[⟨0, 0, ⟨#[]⟩, 0⟩, ⟨0, 0, ⟨#[]⟩, 0⟩, ⟨0, 0, ⟨#[]⟩, 0⟩], ⟨#[]⟩⟩
  have hmoved : Debugger.inDescent.vm.machine.step .descent = some (.moved next) := by
    decide +kernel
  have hplace : Debugger.inDescent.vm.machine.location? = some ⟨0, 0⟩ := by decide +kernel
  have hgoes : Debugger.inDescent.vm.machine.GoesOnAt .descent ⟨0, 0⟩ :=
    ⟨⟨0, 0⟩, _, hplace, rfl, rfl, .inr ⟨fun _ _ => rfl, rfl⟩⟩
  obtain ⟨target, hgoes', -, hstops⟩ := (Host.Session.stepNext_stops ⟨rfl, rfl, rfl⟩ .inDescent
    (show _ = some Program.descent by decide +kernel) (by decide +kernel)).1
    ⟨⟨0, 0⟩, { op := .call }, hplace, by decide +kernel, rfl⟩
  cases hgoes.unique hgoes'
  obtain ⟨answer, d, bound, hanswered, hat, hbound⟩ := hstops.reaches _
    ((Machine.restsAt_of_stop hmoved (.inr ⟨rfl, by decide +kernel⟩)).mpr rfl)
  refine ⟨by decide +kernel, by decide +kernel, by decide +kernel, d, bound, hat.haltedAt?, ?_, ?_⟩
  · rw [Debuggee.depth, hat.2]
    rfl
  · cases hanswered with
    | halted hhalted =>
      cases hhalted
      exact hbound

end BytecodeDebugger
