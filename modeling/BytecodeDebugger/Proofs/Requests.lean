import BytecodeDebugger.Proofs.FirstStop
import BytecodeDebugger.Proofs.Resumption

/-!
# Where the requests of a stepper come to rest

A stepper moves a halted call on by two requests. A single step comes to rest after the next
instruction of the plain trace, and a free run at the next patched location. On a patched location
both stay where they are.

## Implementation notes

A single step needs no bound, so it is stated as what the request answers within every bound. A free
run is stated in both directions: what an answer means, and that there is one if the trace comes to
rest.
-/

namespace BytecodeDebugger

namespace Rest

/-- The answer to a run request that came to rest so. -/
def answer : Rest → Except RunError Stop
  | .halted _ => .ok .paused
  | .ended ending => ending.answer

/-- The answer of a stepper that resumed a call to such a rest: whether it is halted, or why it
failed. -/
def reply : Rest → Except DebugError Bool
  | .halted _ => .ok true
  | .ended (.returned _) => .ok false
  | .ended (.faulted place fault) => .error (.run (.fault place fault))

end Rest

namespace Debuggee

/-- The debuggee is left at such a rest of its trace. -/
def AtRest (vm : Debuggee) : Rest → Prop
  | .halted m => vm.state = .paused ∧ vm.machine = m
  | .ended ending =>
    vm.state = .finished ∧ ∀ value, ending = .returned value → vm.returnValue = value

/-- A call of a program is halted in a machine. -/
structure PausedIn (program : Program) (m : Machine) (vm : Debuggee) : Prop where
  plain : vm.plain? = some program
  state : vm.state = .paused
  machine : vm.machine = m
  frames_ne_nil : m.frames ≠ []

/-- A call of a program that was written without traps is halted in a machine. -/
structure HaltedIn (program : Program) (m : Machine) (vm : Debuggee) : Prop where
  plain : vm.plain? = some program
  trapFree : program.TrapFree
  state : vm.state = .paused
  machine : vm.machine = m
  frames_ne_nil : m.frames ≠ []

variable {vm vm' : Debuggee} {program : Program} {m : Machine} {rest : Rest} {fuel : Nat}

theorem AtRest.of_sameCall (hsame : SameCall vm vm') (h : vm.AtRest rest) : vm'.AtRest rest := by
  cases rest with
  | halted m => exact ⟨hsame.state.trans h.1, hsame.machine.trans h.2⟩
  | ended ending =>
    exact ⟨hsame.state.trans h.1, fun value hvalue => hsame.returnValue.trans (h.2 value hvalue)⟩

theorem PausedIn.of_sameCall (hsame : SameCall vm vm') (h : vm.PausedIn program m) :
    vm'.PausedIn program m :=
  ⟨hsame.plain.trans h.plain, hsame.state.trans h.state, hsame.machine.trans h.machine,
    h.frames_ne_nil⟩

theorem PausedIn.isPaused (h : vm.PausedIn program m) : vm.isPaused = true := by
  rw [Debuggee.isPaused, h.state]
  rfl

theorem PausedIn.haltedAt? (h : vm.PausedIn program m) : vm.haltedAt? = m.location? := by
  rw [haltedAt?_of_isPaused h.isPaused, h.machine]

/-- The program with its patches. -/
theorem PausedIn.live (h : vm.PausedIn program m) :
    ∃ p, vm.program = some p ∧ p.unpatched = program :=
  Option.map_eq_some_iff.mp h.plain

theorem HaltedIn.pausedIn (h : vm.HaltedIn program m) : vm.PausedIn program m :=
  ⟨h.plain, h.state, h.machine, h.frames_ne_nil⟩

theorem HaltedIn.of_sameCall (hsame : SameCall vm vm') (h : vm.HaltedIn program m) :
    vm'.HaltedIn program m :=
  ⟨hsame.plain.trans h.plain, h.trapFree, hsame.state.trans h.state,
    hsame.machine.trans h.machine, h.frames_ne_nil⟩

theorem HaltedIn.isPaused (h : vm.HaltedIn program m) : vm.isPaused = true :=
  h.pausedIn.isPaused

theorem HaltedIn.haltedAt? (h : vm.HaltedIn program m) : vm.haltedAt? = m.location? :=
  h.pausedIn.haltedAt?

theorem AtRest.haltedAt? (h : vm.AtRest (.halted m)) : vm.haltedAt? = m.location? := by
  have hpaused : vm.isPaused = true := by
    rw [isPaused, h.1]
    rfl
  rw [haltedAt?_of_isPaused hpaused, h.2]

/-- The loaded program, with its patches, was written without traps as well. -/
theorem HaltedIn.live (h : vm.HaltedIn program m) :
    ∃ p, vm.program = some p ∧ p.unpatched = program ∧ p.TrapFree := by
  obtain ⟨p, hp, rfl⟩ := h.pausedIn.live
  refine ⟨p, hp, rfl, fun place i hi => h.trapFree place i ?_⟩
  rw [Program.instructionAt?_unpatched, hi]

/-- In a program written without traps, an instruction moves the call on or ends it. -/
theorem HaltedIn.stepsTo (h : vm.HaltedIn program m)
    (hrest : (m.step program).bind Transition.rest? = some rest) : m.StepsTo program rest := by
  obtain ⟨p, -, rfl, hfree⟩ := h.live
  exact Machine.stepsTo_of_rest? hfree h.frames_ne_nil hrest

/-- Whether a machine stands on a patched location of the loaded program. -/
theorem onPatch_eq {p : Program} (hp : vm.program = some p) (m : Machine) :
    m.onPatch p = m.location?.any vm.isPatched := by
  have hpatched : vm.isPatched = p.isPatched := by
    funext place
    rw [isPatched, hp, Option.any_some]
  rw [hpatched, Machine.onPatch]

theorem served_atRest (vm : Debuggee) {t : Transition} (ht : t.rest? = some rest)
    (hframes : ∀ m, rest = .halted m → m.frames ≠ []) :
    (vm.served t).1 = rest.answer ∧ (vm.served t).2.AtRest rest := by
  cases t with
  | moved m =>
    cases ht
    exact served_halted vm (.inl rfl) (hframes m rfl)
  | trapped m =>
    cases ht
    exact served_halted vm (.inr rfl) (hframes m rfl)
  | finished value stack =>
    cases ht
    exact served_ended (t := .finished value stack) vm rfl
  | faulted place fault stack =>
    cases ht
    exact served_ended (t := .faulted place fault stack) vm rfl
  | idle stack => cases ht

/-- A single step comes to rest by the next instruction of the program as it was written, unless the
machine stands on a patched location, or the instruction stops the process. -/
theorem resume_step (h : vm.PausedIn program m) (hstepping : vm.stepping = true) :
    (m.location?.any vm.isPatched = false ∧ m.step program = none ∧
      ∀ fuel, vm.resume fuel = none) ∨
    ∃ rest vm', (∀ fuel, vm.resume fuel = some (rest.answer, vm')) ∧ vm'.AtRest rest ∧
      (∀ last, rest = .halted last → last.frames ≠ []) ∧
      if m.location?.any vm.isPatched then rest = .halted m
        else (m.step program).bind Transition.rest? = some rest := by
  obtain ⟨p, hp, rfl⟩ := h.live
  have hresume (fuel : Nat) : vm.resume fuel = (m.step p).map vm.served := by
    rw [resume, if_pos h.isPaused, run_eq hp, if_pos hstepping, h.machine]
  rw [← onPatch_eq hp]
  cases hstep : m.step p with
  | none =>
    have hfree := Machine.step_eq p m
    rw [hstep] at hfree hresume
    split at hfree
    · cases hfree
    · rename_i hpatch
      exact .inl ⟨Bool.eq_false_iff.mpr hpatch, hfree.symm, hresume⟩
  | some t =>
    obtain ⟨rest, hrest, hframes, hnext⟩ := Machine.step_rest? h.frames_ne_nil hstep
    obtain ⟨hanswer, hvm'⟩ := vm.served_atRest hrest hframes
    refine .inr ⟨rest, (vm.served t).2, fun fuel => ?_, hvm', hframes, hnext⟩
    rw [hresume, hstep, Option.map_some, ← hanswer]

/-- A free run comes to rest at the first patched location of the plain trace, which can be the one
the machine stands on. -/
theorem resume_free {answer : Except RunError Stop} (h : vm.HaltedIn program m)
    (hstepping : vm.stepping = false) (hresume : vm.resume fuel = some (answer, vm')) :
    ∃ rest, answer = rest.answer ∧ vm'.AtRest rest ∧
      m.RestsFrom program (fun m => m.location?.any vm.isPatched = true) rest := by
  obtain ⟨p, hp, rfl, hfree⟩ := h.live
  rw [resume, if_pos h.isPaused, run_eq hp, hstepping, if_neg Bool.false_ne_true, h.machine]
    at hresume
  obtain ⟨t, ht, hserved⟩ := Option.map_eq_some_iff.mp hresume
  obtain ⟨rest, hrest, hframes, hfrom⟩ := Machine.run_restsFrom hfree h.frames_ne_nil ht
  obtain ⟨hanswer, hvm'⟩ := vm.served_atRest hrest hframes
  rw [hserved] at hanswer hvm'
  refine ⟨rest, hanswer, hvm', ?_⟩
  simpa only [onPatch_eq hp] using hfrom

theorem exists_resume_free {rest : Rest} (h : vm.HaltedIn program m)
    (hstepping : vm.stepping = false)
    (hfrom : m.RestsFrom program (fun m => m.location?.any vm.isPatched = true) rest) :
    ∃ fuel, (vm.resume fuel).isSome := by
  obtain ⟨p, hp, rfl, hfree⟩ := h.live
  simp only [← onPatch_eq hp] at hfrom
  obtain ⟨fuel, hfuel⟩ := Machine.exists_run_of_restsFrom hfrom
  refine ⟨fuel, ?_⟩
  rw [resume, if_pos h.isPaused, run_eq hp, hstepping, if_neg Bool.false_ne_true, h.machine,
    Option.isSome_map]
  exact hfuel

/-- A larger bound does not change the answer to a request to resume. -/
theorem resume_mono {fuel' : Nat} {r : Except RunError Stop × Debuggee} (hle : fuel ≤ fuel')
    (h : vm.resume fuel = some r) : vm.resume fuel' = some r := by
  by_cases hpaused : vm.isPaused = true
  · rw [resume, if_pos hpaused] at h ⊢
    exact run_mono hle h
  · rw [resume, if_neg hpaused] at h ⊢
    exact h

end Debuggee

namespace Stepper

variable {s s' : Stepper} {program : Program} {m : Machine} {rest : Rest} {fuel : Nat}

/-- What a stepper makes of the answer to a run request. -/
def noted (s : Stepper) (run : Except RunError Stop × Debuggee) : Except DebugError Bool × Stepper :=
  let s := (s.setPaused false).withVm run.2
  match run.1 with
  | .ok .paused => (.ok true, s.noteBreak)
  | .ok (.finished _) => (.ok false, s.noteFinished)
  | .error error => (.error (.run error), s.noteError)

theorem resume_eq (s : Stepper) (fuel : Nat) : s.resume fuel = (s.vm.resume fuel).map s.noted := by
  rw [resume, vm_setPaused]
  congr 1

/-- Taking note of how a run request ended does not move the call. -/
theorem noted_atRest {vm : Debuggee} (s : Stepper) (h : vm.AtRest rest) :
    (s.noted (rest.answer, vm)).1 = rest.reply ∧
      (s.noted (rest.answer, vm)).2.vm.AtRest rest := by
  match rest with
  | .halted m => exact ⟨rfl, h.of_sameCall (sameCall_noteBreak _)⟩
  | .ended (.returned value) => exact ⟨rfl, (vm_noteFinished _).symm ▸ h⟩
  | .ended (.faulted place fault) => exact ⟨rfl, (vm_noteError _).symm ▸ h⟩

theorem resume_step (hs : s.vm.PausedIn program m) (hstepping : s.vm.stepping = true) :
    (m.location?.any s.vm.isPatched = false ∧ m.step program = none ∧
      ∀ fuel, s.resume fuel = none) ∨
    ∃ rest s', (∀ fuel, s.resume fuel = some (rest.reply, s')) ∧ s'.vm.AtRest rest ∧
      (∀ last, rest = .halted last → last.frames ≠ []) ∧
      if m.location?.any s.vm.isPatched then rest = .halted m
        else (m.step program).bind Transition.rest? = some rest := by
  rcases Debuggee.resume_step hs hstepping with
    ⟨hfree, hnone, hresume⟩ | ⟨rest, vm, hresume, hvm, hframes, hnext⟩
  · exact .inl ⟨hfree, hnone, fun fuel => by rw [resume_eq, hresume, Option.map_none]⟩
  · obtain ⟨hreply, hat⟩ := s.noted_atRest hvm
    refine .inr ⟨rest, (s.noted (rest.answer, vm)).2, fun fuel => ?_, hat, hframes, hnext⟩
    rw [resume_eq, hresume, Option.map_some, ← hreply]

theorem resume_free {answer : Except DebugError Bool} (hs : s.vm.HaltedIn program m)
    (hstepping : s.vm.stepping = false) (h : s.resume fuel = some (answer, s')) :
    ∃ rest, answer = rest.reply ∧ s'.vm.AtRest rest ∧
      m.RestsFrom program (fun m => m.location?.any s.vm.isPatched = true) rest := by
  rw [resume_eq] at h
  obtain ⟨⟨run, vm⟩, hresume, heq⟩ := Option.map_eq_some_iff.mp h
  obtain ⟨rest, rfl, hvm, hfrom⟩ := Debuggee.resume_free hs hstepping hresume
  obtain ⟨hreply, hat⟩ := s.noted_atRest hvm
  rw [heq] at hreply hat
  exact ⟨rest, hreply, hat, hfrom⟩

/-! ## A free run -/

/-- A free run comes to rest at the first trap of the plain trace, which can be the one the call is
halted on. -/
theorem runFreely_rests {answer : Except DebugError Unit} (hs : s.vm.HaltedIn program m)
    (h : s.runFreely fuel .proceed = some (answer, s')) :
    ∃ rest, answer = rest.reply.map (fun _ => ()) ∧ s'.vm.AtRest rest ∧
      m.RestsFrom program (fun m => m.location?.any s.vm.isPatched = true) rest := by
  obtain ⟨⟨resumed, t⟩, hresume, heq⟩ := Option.map_eq_some_iff.mp h
  have hfree : (s.setStepping false).vm.HaltedIn program m :=
    hs.of_sameCall (Debuggee.sameCall_setStepping _ false)
  obtain ⟨rest, rfl, hat, hfrom⟩ := resume_free hfree rfl hresume
  cases heq
  exact ⟨rest, rfl, hat, hfrom⟩

theorem exists_runFreely (hs : s.vm.HaltedIn program m)
    (hrests : m.RestsFrom program (fun m => m.location?.any s.vm.isPatched = true) rest) :
    ∃ fuel, (s.runFreely fuel .proceed).isSome := by
  have hfree : (s.setStepping false).vm.HaltedIn program m :=
    hs.of_sameCall (Debuggee.sameCall_setStepping _ false)
  obtain ⟨fuel, hfuel⟩ := Debuggee.exists_resume_free hfree rfl hrests
  refine ⟨fuel, ?_⟩
  rw [runFreely, Option.isSome_map, resume_eq, Option.isSome_map]
  exact hfuel

/-- What a free run makes of the patches and the notes of a stepper. -/
theorem resumed_runFreely {answer : Except DebugError Unit}
    (h : s.runFreely fuel .proceed = some (answer, s')) : (s.setStepping false).Resumed s' := by
  obtain ⟨⟨resumed, t⟩, hresume, heq⟩ := Option.map_eq_some_iff.mp h
  cases heq
  exact resumed_resume hresume

/-! ## A single step -/

/-- What a single step makes of the patches and the notes of a stepper, if it does not fail: the
location left is armed again, and the one halted at is taken out. -/
structure Stepped (s s' : Stepper) : Prop where
  breakpoints : s'.debugger.breakpoints = s.debugger.breakpoints
  plain : s'.vm.plain? = s.vm.plain?
  plan : s'.plan = s.plan
  onBreakpoint : s'.onBreakpoint = s'.vm.haltedAt?.any s.vm.isPatched
  isPatched : ∀ place, s'.vm.isPatched place =
    ((s.vm.isPatched place && decide (s'.vm.haltedAt? ≠ some place)) ||
      (decide (s.vm.haltedAt? = some place) && s.debugger.isBreakpoint place))

theorem Stepped.isBreakpoint (h : s.Stepped s') (place : Location) :
    s'.debugger.isBreakpoint place = s.debugger.isBreakpoint place := by
  have haddress : s'.debugger.vm.hasAddress place = s.debugger.vm.hasAddress place := by
    have hplain : s'.debugger.vm.plain? = s.debugger.vm.plain? := h.plain
    rw [Debuggee.hasAddress, hplain, Debuggee.hasAddress]
  rw [Debugger.isBreakpoint, Debugger.hasBreakpoint, h.breakpoints, haddress]
  rfl

theorem stepped_rearm {t : Stepper} (hpaused : s.vm.isPaused = true)
    (h : (s.setStepping true).Resumed t) : s.Stepped (t.rearm (s.vm.frameInfo? 0)) := by
  have hframe : s.vm.frameInfo? 0 =
      s.vm.haltedAt?.map fun place => ⟨s.vm.programId, place.function, place.address⟩ := by
    rw [s.vm.frameInfo?_zero, Debuggee.haltedAt?_of_isPaused hpaused]
  have hpatched (other : Location) : t.debugger.vm.isPatched other =
      (s.vm.isPatched other && decide (t.vm.haltedAt? ≠ some other)) := h.debugger.isPatched other
  rw [hframe]
  cases hat : s.vm.haltedAt? with
  | none =>
    refine ⟨h.debugger.breakpoints, h.debugger.plain, h.plan, h.onBreakpoint,
      fun other => (hpatched other).trans ?_⟩
    simp only [hat, reduceCtorEq, decide_false, Bool.false_and, Bool.or_false]
    rfl
  | some place =>
    let frame : FrameInfo := ⟨s.vm.programId, place.function, place.address⟩
    have hcall : Debuggee.SameCall t.vm (t.rearm (some frame)).vm := t.sameCall_rearm (some frame)
    refine ⟨?_, hcall.plain.trans h.debugger.plain, h.plan, ?_, fun other => ?_⟩
    · exact (Debugger.breakpoints_rearm _ _).trans h.debugger.breakpoints
    · rw [Option.map_some, hcall.haltedAt?]
      exact h.onBreakpoint
    · have hcurrent : t.debugger.isCurrent frame = true := by
        have hid : t.debugger.vm.programId = s.vm.programId := h.debugger.programId
        simp [Debugger.isCurrent, frame, hid]
      have hbreakpoint : t.debugger.isBreakpoint other = s.debugger.isBreakpoint other :=
        h.debugger.isBreakpoint other
      have hlocation : frame.location = place := rfl
      have hrearm := t.debugger.isPatched_rearm frame other
      rw [hcurrent, hlocation, hbreakpoint, hpatched] at hrearm
      rw [Option.map_some, hcall.haltedAt?, hat]
      refine Eq.trans hrearm ?_
      simp

/-- A request that starts by a single step: from a noted breakpoint, and if a step is all it asks
for. -/
theorem serve_step {request : Request} (hs : s.vm.PausedIn program m)
    (hfirst : s.onBreakpoint = true ∨ request = .step) :
    (m.location?.any s.vm.isPatched = false ∧ m.step program = none ∧
      ∀ fuel, s.serve fuel request = none) ∨
    ∃ rest s', s'.vm.AtRest rest ∧ (∀ last, rest = .halted last → last.frames ≠ []) ∧
      (if m.location?.any s.vm.isPatched then rest = .halted m
        else (m.step program).bind Transition.rest? = some rest) ∧
      match rest with
      | .halted _ => s.Stepped s' ∧ ∀ fuel, s.serve fuel request =
          if s'.onBreakpoint then some (.ok (), s') else s'.runFreely fuel request
      | .ended (.returned _) => s.Stepped s' ∧ ∀ fuel, s.serve fuel request = some (.ok (), s')
      | .ended (.faulted place fault) =>
        ∀ fuel, s.serve fuel request = some (.error (.run (.fault place fault)), s') := by
  have hstepping : (s.setStepping true).vm.PausedIn program m :=
    hs.of_sameCall (Debuggee.sameCall_setStepping _ true)
  have hbegin : (s.onBreakpoint || request == .step) = true := by
    rcases hfirst with hnote | rfl
    · rw [hnote]
      rfl
    · rw [beq_self_eq_true, Bool.or_true]
  rcases resume_step hstepping rfl with
    ⟨hfree, hnone, hresume⟩ | ⟨rest, t, hresume, hat, hframes, hnext⟩
  · refine .inl ⟨hfree, hnone, fun fuel => ?_⟩
    simp only [serve, hbegin, if_true, hresume]
  refine .inr ?_
  have hstepped := stepped_rearm hs.isPaused (resumed_resume (hresume 0))
  have hrearmed : (t.rearm (s.vm.frameInfo? 0)).vm.AtRest rest :=
    hat.of_sameCall (t.sameCall_rearm _)
  cases rest with
  | halted next =>
    refine ⟨.halted next, _, hrearmed, hframes, hnext, hstepped, fun fuel => ?_⟩
    simp only [serve, hbegin, if_true, hresume, Rest.reply, Bool.not_true, Bool.false_or]
  | ended ending =>
    cases ending with
    | returned value =>
      refine ⟨.ended (.returned value), _, hrearmed, hframes, hnext, hstepped, fun fuel => ?_⟩
      simp only [serve, hbegin, if_true, hresume, Rest.reply, Bool.not_false, Bool.true_or]
    | faulted place fault =>
      refine ⟨.ended (.faulted place fault), t, hat, hframes, hnext, fun fuel => ?_⟩
      simp only [serve, hbegin, if_true, hresume, Rest.reply]

/-- The same over a program that was written without traps. -/
theorem serve_eq {request : Request} (hs : s.vm.HaltedIn program m)
    (hfirst : s.onBreakpoint = true ∨ request = .step) :
    (m.location?.any s.vm.isPatched = false ∧ m.step program = none ∧
      ∀ fuel, s.serve fuel request = none) ∨
    ∃ rest s', s'.vm.AtRest rest ∧
      (if m.location?.any s.vm.isPatched then rest = .halted m else m.StepsTo program rest) ∧
      match rest with
      | .halted _ => s.Stepped s' ∧ ∀ fuel, s.serve fuel request =
          if s'.onBreakpoint then some (.ok (), s') else s'.runFreely fuel request
      | .ended (.returned _) => s.Stepped s' ∧ ∀ fuel, s.serve fuel request = some (.ok (), s')
      | .ended (.faulted place fault) =>
        ∀ fuel, s.serve fuel request = some (.error (.run (.fault place fault)), s') := by
  refine (serve_step hs.pausedIn hfirst).imp_right ?_
  rintro ⟨rest, s', hat, -, hnext, hserve⟩
  refine ⟨rest, s', hat, ?_, hserve⟩
  by_cases hpatched : m.location?.any s.vm.isPatched = true
  · rw [if_pos hpatched] at hnext ⊢
    exact hnext
  · rw [if_neg hpatched] at hnext ⊢
    exact hs.stepsTo hnext

/-- A request that starts by a free run. -/
theorem serve_of_not_onBreakpoint (hnote : s.onBreakpoint = false) (fuel : Nat) :
    s.serve fuel .proceed = s.runFreely fuel .proceed := by
  have hbegin : (s.onBreakpoint || Request.proceed == .step) = false := by
    rw [hnote]
    rfl
  simp only [serve, hbegin, Bool.false_eq_true, if_false]

/-! ## Bounds -/

section Bounds

variable {fuel' : Nat}

/-- A larger bound does not change the answer to a request. -/
theorem resume_mono {r : Except DebugError Bool × Stepper} (hle : fuel ≤ fuel')
    (h : s.resume fuel = some r) : s.resume fuel' = some r := by
  rw [resume_eq] at h ⊢
  obtain ⟨run, hrun, hr⟩ := Option.map_eq_some_iff.mp h
  exact Option.map_eq_some_iff.mpr ⟨run, Debuggee.resume_mono hle hrun, hr⟩

theorem runFreely_mono {request : Request} {r : Except DebugError Unit × Stepper}
    (hle : fuel ≤ fuel') (h : s.runFreely fuel request = some r) :
    s.runFreely fuel' request = some r := by
  cases request with
  | step => exact h
  | proceed =>
    obtain ⟨resumed, hresumed, hr⟩ := Option.map_eq_some_iff.mp h
    exact Option.map_eq_some_iff.mpr ⟨resumed, resume_mono hle hresumed, hr⟩

theorem serve_mono {request : Request} {r : Except DebugError Unit × Stepper}
    (hle : fuel ≤ fuel') (h : s.serve fuel request = some r) : s.serve fuel' request = some r := by
  simp only [serve] at h ⊢
  split at h
  · rename_i hbegin
    rw [if_pos hbegin]
    split at h
    · cases h
    · rename_i error t hresume
      rw [resume_mono hle hresume]
      exact h
    · rename_i halted t hresume
      rw [resume_mono hle hresume]
      simp only
      split at h
      · rename_i hover
        rw [if_pos hover]
        exact h
      · rename_i hgo
        rw [if_neg hgo]
        exact runFreely_mono hle h
  · rename_i hbegin
    rw [if_neg hbegin]
    exact runFreely_mono hle h

theorem advance_mono {starting : Bool} {r : Except DebugError Bool × Stepper} (hle : fuel ≤ fuel')
    (h : s.advance starting fuel = some r) : s.advance starting fuel' = some r := by
  simp only [advance] at h ⊢
  split at h
  · exact h
  · split at h
    · exact h
    · obtain ⟨served, hserved, hr⟩ := Option.map_eq_some_iff.mp h
      exact Option.map_eq_some_iff.mpr ⟨served, serve_mono hle hserved, hr⟩

theorem drive_mono {starting : Bool} {r : Except DebugError Unit × Stepper} (hle : fuel ≤ fuel')
    (h : s.drive starting fuel = some r) : s.drive starting fuel' = some r := by
  induction fuel generalizing s fuel' with
  | zero => cases h
  | succ fuel ih =>
    obtain ⟨fuel', rfl⟩ : ∃ n, fuel' = n + 1 := ⟨fuel' - 1, by omega⟩
    have hle : fuel ≤ fuel' := by omega
    rw [drive] at h ⊢
    split at h
    · cases h
    · rename_i error t hadvance
      rw [advance_mono hle hadvance]
      exact h
    · rename_i t hadvance
      rw [advance_mono hle hadvance]
      exact h
    · rename_i t hadvance
      rw [advance_mono hle hadvance]
      exact ih hle h

theorem start_mono {command : Command} {r : Except DebugError Bool × Stepper} (hle : fuel ≤ fuel')
    (h : s.start fuel command = some r) : s.start fuel' command = some r := by
  rw [start] at h ⊢
  split at h
  · rename_i hpaused
    rw [if_pos hpaused]
    obtain ⟨driven, hdriven, hr⟩ := Option.map_eq_some_iff.mp h
    exact Option.map_eq_some_iff.mpr ⟨driven, drive_mono hle hdriven, hr⟩
  · rename_i hpaused
    rw [if_neg hpaused]
    exact h

end Bounds

end Stepper

end BytecodeDebugger
