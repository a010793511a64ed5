import BytecodeDebugger.Proofs.StepOver
import BytecodeDebugger.Wire.Image

/-!
# The trap that brings a call back

Before `stepNext` runs over a call it patches a trap where the calling routine is to be reached
again. The routine is reached again at the first address of its code after the call that has a span,
or at its last address if there is none. But the search for that address goes through the spans, and
nothing keeps spans within the code: if those after the call all stand behind its end, the address
found is out of range, the trap is not patched, and the call runs free unless a breakpoint or another
trap happens to be where the routine goes on.

## Implementation notes

The statements are about every halted debugger and every program, whatever is patched. What is
patched when the debuggee is resumed is that of the debugger after the step into the call, all
breakpoints, and the trap.
-/

namespace BytecodeDebugger

namespace Routine

/-- The address of the code at which a routine is reached again after a call: the first address
after the call that has a span, or the last address if there is none. -/
def ReturnsTo (r : Routine) (call target : Nat) : Prop :=
  IsLeast {address | call + 1 ≤ address ∧ address < r.code.size ∧ (r.spanAt? address).isSome}
      target ∨
    (∀ address, call + 1 ≤ address → address < r.code.size → r.spanAt? address = none) ∧
      target + 1 = r.code.size

/-- There are spans after a call, but all of them behind the end of the code. -/
def SpansRunOut (r : Routine) (call : Nat) : Prop :=
  (∃ address, call + 1 ≤ address ∧ (r.spanAt? address).isSome) ∧
    ∀ address, call + 1 ≤ address → address < r.code.size → r.spanAt? address = none

variable {r : Routine} {call target : Nat}

theorem ReturnsTo.lt_size (h : r.ReturnsTo call target) : target < r.code.size := by
  rcases h with hleast | ⟨-, hlast⟩
  · exact hleast.1.2.1
  · omega

/-- An address that is found within the code is the one at which the routine is reached again, and the
spans do not run out. -/
theorem GoesOnAt.of_lt (h : r.GoesOnAt call target) (hlt : target < r.code.size) :
    r.ReturnsTo call target ∧ ¬r.SpansRunOut call := by
  rcases h with hleast | ⟨hnone, hlast⟩
  · refine ⟨.inl ⟨⟨hleast.1.1, hlt, hleast.1.2⟩, ?_⟩, ?_⟩
    · rintro address ⟨hle, -, hspan⟩
      exact hleast.2 ⟨hle, hspan⟩
    · rintro ⟨-, hbehind⟩
      have hspan := hleast.1.2
      rw [hbehind target hleast.1.1 hlt] at hspan
      cases hspan
  · refine ⟨.inr ⟨fun address hle _ => hnone address hle, hlast⟩, ?_⟩
    rintro ⟨⟨address, hle, hspan⟩, -⟩
    rw [hnone address hle] at hspan
    cases hspan

/-- If an address is found behind the end of the code, the spans have run out, and the routine is
reached again at its last address. -/
theorem GoesOnAt.of_le (h : r.GoesOnAt call target) (hsize : 0 < r.code.size)
    (hle : r.code.size ≤ target) :
    r.ReturnsTo call (r.code.size - 1) ∧ r.SpansRunOut call := by
  rcases h with hleast | ⟨-, hlast⟩
  · have hnone : ∀ address, call + 1 ≤ address → address < r.code.size →
        r.spanAt? address = none := by
      intro address hafter hlt
      rw [← Option.not_isSome_iff_eq_none]
      intro hspan
      have htarget : target ≤ address := hleast.2 ⟨hafter, hspan⟩
      omega
    exact ⟨.inr ⟨hnone, by omega⟩, ⟨target, hleast.1⟩, hnone⟩
  · omega

/-- The address that is found is the one at which the routine is reached again, unless the spans run
out. -/
theorem GoesOnAt.exists_returnsTo (h : r.GoesOnAt call target) (hsize : 0 < r.code.size) :
    ∃ returns, r.ReturnsTo call returns ∧ (target = returns ↔ ¬r.SpansRunOut call) := by
  rcases Nat.lt_or_ge target r.code.size with hlt | hge
  · obtain ⟨hreturns, hspans⟩ := h.of_lt hlt
    exact ⟨target, hreturns, iff_of_true rfl hspans⟩
  · obtain ⟨hreturns, hspans⟩ := h.of_le hsize hge
    refine ⟨r.code.size - 1, hreturns, iff_of_false ?_ (not_not_intro hspans)⟩
    omega

end Routine

namespace Debugger

variable {d e : Debugger} {origin frame : FrameInfo} {target : Location} {r : Routine}
  {fuel : Nat}

/-- A step leaves the program as it was written, and its identity. -/
theorem sameProgram_stepInstruction {answer : Except DebugError StepOutcome}
    (horigin : d.pausedFrame? = some origin) (h : d.stepInstruction fuel = some (answer, e)) :
    e.vm.plain? = d.vm.plain? ∧ e.vm.programId = d.vm.programId := by
  rw [stepInstruction_eq horigin] at h
  obtain ⟨⟨resumed, t⟩, hresume, heq⟩ := Option.map_eq_some_iff.mp h
  have hresumed := resumed_resume hresume
  have hreleased := d.sameCall_released origin
  have ht : t.vm.plain? = d.vm.plain? ∧ t.vm.programId = d.vm.programId :=
    ⟨hresumed.plain.trans hreleased.plain, hresumed.programId.trans hreleased.programId⟩
  cases resumed with
  | error error =>
    cases heq
    exact ht
  | ok outcome =>
    cases heq
    have hrearmed := t.sameCall_rearm origin
    exact ⟨hrearmed.plain.trans ht.1, hrearmed.programId.trans ht.2⟩

/-- The addresses of the loaded program in the routine of a frame. -/
theorem hasAddress_of_routine? (h : d.routine? frame = some r) (address : Nat) :
    d.vm.hasAddress ⟨frame.function, address⟩ = decide (address < r.code.size) := by
  have hroutine := d.map_routine?_eq frame
  rw [h, Option.map_some] at hroutine
  split at hroutine
  · obtain ⟨program, hplain, hwritten⟩ := Option.bind_eq_some_iff.mp hroutine.symm
    have hsize : r.unpatched.code.size = r.code.size := r.code.size_restoreAll
    rw [Debuggee.hasAddress, hplain, Option.any_some, Program.hasAddress, hwritten,
      Option.any_some, hsize]
  · cases hroutine

/-- A debugger that stands at a call stands in the code of a routine. -/
theorem exists_routine?_of_standsAtCall (h : d.standsAtCall origin = true) :
    ∃ r, d.routine? origin = some r ∧ origin.pc < r.code.size := by
  obtain ⟨i, hi, -⟩ := (Option.any_eq_true _ _).mp h
  obtain ⟨r, hr, hcode⟩ := Option.bind_eq_some_iff.mp hi
  exact ⟨r, hr, r.code.lt_size_of_instructionAt? hcode⟩

/-- After the step into a call, the address at which the calling routine is to be reached again is the
one that its spans tell. -/
theorem exists_overTarget?_of_step {answer : Except DebugError StepOutcome}
    (horigin : d.pausedFrame? = some origin) (hr : d.routine? origin = some r)
    (hsize : 0 < r.code.size) (hstep : d.stepInstruction fuel = some (answer, e)) :
    ∃ address, e.overTarget? origin = some ⟨origin.function, address⟩ ∧
      r.GoesOnAt origin.pc address := by
  obtain ⟨hplain, hid⟩ := sameProgram_stepInstruction horigin hstep
  have hroutine : (e.routine? origin).map Routine.unpatched = some r.unpatched := by
    rw [map_routine?_eq, hplain, hid, ← map_routine?_eq, hr, Option.map_some]
  obtain ⟨r', hr', hunpatched⟩ := Option.map_eq_some_iff.mp hroutine
  have hsize' : 0 < r'.code.size := by
    have hsame := congrArg (fun r : Routine => r.code.size) hunpatched
    rw [show r'.unpatched.code.size = r'.code.size from r'.code.size_restoreAll,
      show r.unpatched.code.size = r.code.size from r.code.size_restoreAll] at hsame
    omega
  obtain ⟨address, htarget, hgoes⟩ := exists_overTarget? hr' hsize'
  refine ⟨address, htarget, ?_⟩
  rwa [← Routine.goesOnAt_unpatched, ← hunpatched, Routine.goesOnAt_unpatched]

/-- Whenever `stepNext` goes on to run over a call, it resumes the debuggee with a trap patched where
the calling routine is reached again, provided that the spans after the call do not all stand behind
the end of the code. If they do, the trap is out of range, and a trap stands there only if one was
patched before or if a breakpoint is in the set. -/
theorem stepNext_arms_return (horigin : d.pausedFrame? = some origin)
    (hcall : d.standsAtCall origin = true)
    (hstep : d.stepInstruction fuel = some (.ok (.paused frame false), e)) :
    ∃ r target returns, d.routine? origin = some r ∧ e.overTarget? origin = some target ∧
      r.ReturnsTo origin.pc returns ∧ returns < r.code.size ∧
      d.stepNext fuel = reported (((e.armedAt target).resume fuel).map fun (answer, f) =>
        (answer, if (e.rearmAll.patch target).1 then (f.restore target).2 else f)) ∧
      ((e.armedAt target).vm.isPatched ⟨origin.function, returns⟩ = true ↔
        ¬r.SpansRunOut origin.pc ∨ e.vm.isPatched ⟨origin.function, returns⟩ = true ∨
          e.hasBreakpoint ⟨origin.function, returns⟩ = true) := by
  obtain ⟨r, hr, hpc⟩ := exists_routine?_of_standsAtCall hcall
  have hsize : 0 < r.code.size := by omega
  obtain ⟨address, htarget, hgoes⟩ := exists_overTarget?_of_step horigin hr hsize hstep
  obtain ⟨returns, hreturns, hspans⟩ := hgoes.exists_returnsTo hsize
  have hrange : e.vm.hasAddress ⟨origin.function, returns⟩ = true := by
    rw [Debuggee.hasAddress, (sameProgram_stepInstruction horigin hstep).1, ← Debuggee.hasAddress,
      hasAddress_of_routine? hr]
    exact decide_eq_true hreturns.lt_size
  refine ⟨r, _, returns, hr, htarget, hreturns, hreturns.lt_size, ?_, ?_⟩
  · rw [stepNext_of_standsAtCall horigin hcall, stepThen]
    simp only [hstep]
    rw [runOverCall_eq fuel _ htarget]
    rfl
  · have htrap : (decide ((⟨origin.function, address⟩ : Location) = ⟨origin.function, returns⟩) &&
        e.vm.hasAddress ⟨origin.function, address⟩) = true ↔ ¬r.SpansRunOut origin.pc := by
      rw [← hspans, Bool.and_eq_true_iff, decide_eq_true_iff]
      constructor
      · rintro ⟨heq, -⟩
        cases heq
        rfl
      · rintro rfl
        exact ⟨rfl, hrange⟩
    rw [isPatched_armedAt, isBreakpoint, hrange, Bool.and_true, Bool.or_eq_true_iff, htrap,
      Bool.or_eq_true_iff]
    exact or_comm

/-- The debugger in the descent after one more call. -/
def deepInDescent : Debugger :=
  match inDescent.stepInstruction 0 with
  | some (_, d) => d
  | none => {}

/-- A routine without spans that calls itself at its only address is reached again there, and there
the trap is patched. -/
theorem stepNext_arms_return_descent :
    inDescent.pausedFrame? = some ⟨⟨0⟩, 0, 0⟩ ∧
      inDescent.stepInstruction 0 = some (.ok (.paused ⟨⟨0⟩, 0, 0⟩ false), deepInDescent) ∧
      (deepInDescent.armedAt ⟨0, 0⟩).vm.isPatched ⟨0, 0⟩ = true := by
  have horigin : inDescent.pausedFrame? = some ⟨⟨0⟩, 0, 0⟩ := by decide +kernel
  have hstep : inDescent.stepInstruction 0 =
      some (.ok (.paused ⟨⟨0⟩, 0, 0⟩ false), deepInDescent) := by
    decide +kernel
  obtain ⟨r, target, returns, hr, htarget, -, hlt, -, hpatched⟩ :=
    stepNext_arms_return horigin (by decide +kernel) hstep
  cases hr.symm.trans
    (show inDescent.routine? ⟨⟨0⟩, 0, 0⟩ = some Program.descent.routines[0] by decide +kernel)
  cases htarget.symm.trans
    (show deepInDescent.overTarget? ⟨⟨0⟩, 0, 0⟩ = some ⟨0, 0⟩ by decide +kernel)
  obtain rfl : returns = 0 := Nat.lt_one_iff.mp hlt
  refine ⟨horigin, hstep, hpatched.mpr (.inl ?_)⟩
  rintro ⟨⟨address, -, hspan⟩, -⟩
  cases hspan

end Debugger

/-- A program whose exported routine calls another one. One span of the exported routine stands at
the call, and the other one behind the end of the code. -/
def Program.strayed : Program where
  routines := #[
    { code := .ofInstructions #[{ op := .call, immediate := 1 }, { op := .push, immediate := 1 },
        { op := .ret }]
      spans := .ofList [(0, .ofLine "f" 1), (7, .ofLine "f" 2)] },
    { code := .ofInstructions #[{ op := .ret }] }]
  exports := SortedMap.insert ∅ "main" 0

namespace Debugger

/-- A debugger whose call is halted on a breakpoint at the call instruction. -/
def inStrayed : Debugger :=
  match (({} : Debugger).load .strayed).2.set ⟨0, 0⟩ |>.call 1 "main" #[] with
  | some (_, d) => d
  | none => {}

/-- The debugger after the step into the call. -/
def deepInStrayed : Debugger :=
  match inStrayed.stepInstruction 0 with
  | some (_, d) => d
  | none => {}

end Debugger

/-- The program is read from its image, and its call is halted at a call instruction. The routine is
to be reached again at its last address, but the trap is patched nowhere: stepping over the call runs
to the end of the program. -/
theorem Host.Session.unarmed_return_strayed :
    Wire.decode (Wire.encode .strayed) = .ok .strayed ∧
      Session (fun _ => True) (.debugger {}) false (.debugger .inStrayed) ∧
      Debugger.inStrayed.pausedFrame? = some ⟨⟨0⟩, 0, 0⟩ ∧
      Debugger.inStrayed.standsAtCall ⟨⟨0⟩, 0, 0⟩ = true ∧
      Debugger.inStrayed.stepInstruction 0 =
        some (.ok (.paused ⟨⟨0⟩, 1, 0⟩ false), .deepInStrayed) ∧
      Program.strayed.routines[0].ReturnsTo 0 2 ∧
      Debugger.deepInStrayed.overTarget? ⟨⟨0⟩, 0, 0⟩ = some ⟨0, 7⟩ ∧
      (∀ address < 3, (Debugger.deepInStrayed.armedAt ⟨0, 7⟩).vm.isPatched ⟨0, address⟩ =
        decide (address = 0)) ∧
      (Debugger.inStrayed.stepNext 9).map (·.1) = some (.ok (.finished 1)) := by
  have hloaded : Session (fun _ => True) (.debugger {}) false
      (.debugger (({} : Debugger).load .strayed).2) :=
    .perform .new trivial
      (show Host.perform 0 (.debugger {}) (.debugger (.load .strayed)) = some _ from rfl)
  have hset := hloaded.perform trivial
    (show Host.perform 0 _ (.debugger (.set ⟨0, 0⟩)) = some (.done, _) from rfl)
  have hcalled : Session (fun _ => True) (.debugger {}) false (.debugger .inStrayed) :=
    hset.perform trivial
      (show Host.perform 1 _ (.debugger (.call "main" #[])) = some (.stopped .paused, _) from rfl)
  have hnone : ∀ address < 3, 1 ≤ address →
      Program.strayed.routines[0].spanAt? address = none := by decide +kernel
  refine ⟨by decide +kernel, hcalled, by decide +kernel, by decide +kernel, by decide +kernel,
    .inr ⟨fun address hafter hlt => hnone address hlt hafter, rfl⟩, by decide +kernel,
    by decide +kernel, by decide +kernel⟩

end BytecodeDebugger
