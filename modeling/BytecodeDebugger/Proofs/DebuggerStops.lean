import BytecodeDebugger.Proofs.Armed
import BytecodeDebugger.Proofs.IssuedRuns
import BytecodeDebugger.Proofs.StopRule

/-!
# Where the commands of a debugger stop

A debugger serves a stepping command within one request, and the command stops by one rule over the
plain trace of the call. `proceed` stops at the first machine, after at least one instruction, that
stands on a breakpoint of the loaded program, and says that it is on a breakpoint. `stepInto` stops
at the first one whose location is in the set of breakpoints or has a source span. If the call ends
before, the answer is how it ended.

## Implementation notes

Which breakpoints are armed does not matter. A command first executes the instruction it is given
on, from which the trap is taken out, and a free run arms everything before it starts. So all that
has to be known of the patches is that they are at breakpoints, and the rule holds also after failed
runs and after frames were restored that no call is halted in.

A breakpoint beyond the code of its routine is in the set and is patched nowhere. A step comes to
rest on it and a free run passes over it.
-/

namespace BytecodeDebugger

namespace Ending

/-- The answer to a command of a debugger by which a call ended so. -/
def outcome : Ending → Except DebugError StepOutcome
  | .returned value => .ok (.finished value)
  | .faulted place fault => .error (.run (.fault place fault))

end Ending

namespace Rest

/-- The answers to a command of a debugger that came to rest so in the program with an identity. -/
inductive Answered (id : ProgramId) (onBreakpoint : Bool) :
    Rest → Except DebugError StepOutcome → Prop
  | halted {m : Machine} {place : Location} (hplace : m.location? = some place) :
      Answered id onBreakpoint (.halted m)
        (.ok (.paused ⟨id, place.function, place.address⟩ onBreakpoint))
  | ended (ending : Ending) : Answered id onBreakpoint (.ended ending) ending.outcome

/-- The location of a call that is halted. -/
def location? : Rest → Option Location
  | .halted m => m.location?
  | .ended _ => none

/-- The end of a call says nothing about breakpoints. -/
theorem Answered.of_halted {rest : Rest} {id : ProgramId} {onBreakpoint onBreakpoint' : Bool}
    {answer : Except DebugError StepOutcome} (h : rest.Answered id onBreakpoint answer)
    (hhalted : ∀ m, rest = .halted m → onBreakpoint = onBreakpoint') :
    rest.Answered id onBreakpoint' answer := by
  cases h with
  | halted hplace =>
    rw [hhalted _ rfl]
    exact .halted hplace
  | ended ending => exact .ended ending

end Rest

/-- The machines at which steps come to rest: at a marked location, or at one that has a span. -/
def Machine.AtStopPoint (marks : Location → Bool) (program : Program) (m : Machine) : Prop :=
  m.location?.any marks = true ∨ (m.span? program).isSome = true

namespace Debugger

variable {d d' : Debugger} {marks : Location → Bool} {program : Program} {m : Machine}
  {rest : Rest} {fuel : Nat}

/-! ## Commands and rests -/

/-- A command is answered exactly by where a trace comes to rest: if it comes to rest, the command
is answered so within every sufficient bound, and the command is answered in no other way. -/
structure ComesToRest (command : Nat → Answer StepOutcome) (rests : Rest → Prop)
    (answers : Rest → Except DebugError StepOutcome → Prop) : Prop where
  reaches : ∀ rest, rests rest → ∃ answer d bound, answers rest answer ∧ d.vm.AtRest rest ∧
    ∀ fuel ≥ bound, command fuel = some (answer, d)
  only : ∀ fuel answer d, command fuel = some (answer, d) →
    ∃ rest, rests rest ∧ answers rest answer ∧ d.vm.AtRest rest

namespace ComesToRest

variable {command : Nat → Answer StepOutcome} {rests rests' : Rest → Prop}
  {answers : Rest → Except DebugError StepOutcome → Prop}

/-- A command that is answered at once, where the trace can rest only. -/
theorem const {answer : Except DebugError StepOutcome} (hrests : ∀ r, rests r ↔ r = rest)
    (hanswer : answers rest answer) (hat : d.vm.AtRest rest) :
    ComesToRest (fun _ => some (answer, d)) rests answers := by
  constructor
  · intro r hr
    cases (hrests r).mp hr
    exact ⟨answer, d, 0, hanswer, hat, fun _ _ => rfl⟩
  · intro fuel answer' e he
    cases he
    exact ⟨rest, (hrests rest).mpr rfl, hanswer, hat⟩

/-- A command that is never answered, where the trace never comes to rest. -/
theorem of_eq_none (hrests : ∀ r, ¬rests r) (hnone : ∀ fuel, command fuel = none) :
    ComesToRest command rests answers := by
  constructor
  · intro r hr
    exact absurd hr (hrests r)
  · intro fuel answer e he
    rw [hnone] at he
    cases he

theorem of_iff (h : ComesToRest command rests answers) (hrests : ∀ r, rests r ↔ rests' r) :
    ComesToRest command rests' answers := by
  have heq : rests = rests' := funext fun r => propext (hrests r)
  rwa [← heq]

/-- A larger bound does not change where a command comes to rest. -/
theorem shift (h : ComesToRest command rests answers) :
    ComesToRest (fun fuel => command (fuel + 1)) rests answers := by
  constructor
  · intro rest hrest
    obtain ⟨answer, e, bound, hanswer, hat, hbound⟩ := h.reaches rest hrest
    exact ⟨answer, e, bound, hanswer, hat, fun fuel hle => hbound (fuel + 1) (by omega)⟩
  · intro fuel answer e he
    exact h.only (fuel + 1) answer e he

/-- What is done after a command, without touching the call, does not change where it comes to
rest. -/
theorem map {f : Except DebugError StepOutcome → Debugger → Debugger}
    (h : ComesToRest command rests answers)
    (hf : ∀ answer e, Debuggee.SameCall e.vm (f answer e).vm) :
    ComesToRest (fun fuel => (command fuel).map fun r => (r.1, f r.1 r.2)) rests answers := by
  constructor
  · intro rest hrest
    obtain ⟨answer, e, bound, hanswer, hat, hbound⟩ := h.reaches rest hrest
    refine ⟨answer, f answer e, bound, hanswer, hat.of_sameCall (hf answer e), fun fuel hle => ?_⟩
    simp only [hbound fuel hle, Option.map_some]
  · intro fuel answer e he
    obtain ⟨⟨answer, e⟩, hcommand, heq⟩ := Option.map_eq_some_iff.mp he
    cases heq
    obtain ⟨rest, hrest, hanswer, hat⟩ := h.only fuel answer e hcommand
    exact ⟨rest, hrest, hanswer, hat.of_sameCall (hf answer e)⟩

/-- Telling the subscribers is done after a command. -/
theorem reported (h : ComesToRest command rests answers) :
    ComesToRest (fun fuel => Debugger.reported (command fuel)) rests answers := by
  have heq : (fun fuel => Debugger.reported (command fuel)) =
      fun fuel => (command fuel).map fun r => (r.1, r.2.told r.1) := by
    funext fuel
    rw [Debugger.reported]
    congr 1
    funext ⟨answer, e⟩
    cases answer <;> rfl
  rw [heq]
  apply h.map (f := fun answer e => e.told answer)
  intro answer e
  rw [vm_told]
  exact .refl e.vm

end ComesToRest

/-! ## Resuming a call -/

/-- What a debugger makes of the answer to a run request. -/
def noted (d : Debugger) (run : Except RunError Stop × Debuggee) :
    Except DebugError StepOutcome × Debugger :=
  let e : Debugger := { d with vm := run.2 }
  match run.1 with
  | .error error => (.error (.run error), e)
  | .ok (.finished value) => (.ok (.finished value), e)
  | .ok .paused =>
    match run.2.frameInfo? 0 with
    | none => (.error (.run .notPaused), e)
    | some frame => (.ok (.paused frame (e.restoreFrame frame).1), (e.restoreFrame frame).2)

theorem resume_eq (d : Debugger) (fuel : Nat) : d.resume fuel = (d.vm.resume fuel).map d.noted :=
  rfl

/-- The call is left where the run request came to rest, and the answer says whether a trap stood
there. -/
theorem noted_atRest {vm : Debuggee} (hresume : d.vm.resume fuel = some (rest.answer, vm))
    (hat : vm.AtRest rest) :
    rest.Answered d.vm.programId (rest.location?.any d.vm.isPatched)
        (d.noted (rest.answer, vm)).1 ∧
      (d.noted (rest.answer, vm)).2.vm.AtRest rest := by
  obtain ⟨hsame, hrest⟩ := Debuggee.resume_rest hresume
  match rest with
  | .halted m =>
    obtain ⟨-, place, hplace⟩ | ⟨hanswer, -⟩ := hrest
    · let e : Debugger := { d with vm }
      let frame : FrameInfo := ⟨vm.programId, place.function, place.address⟩
      have hm : m.location? = some place := hat.haltedAt?.symm.trans hplace
      have hnoted : d.noted (.ok .paused, vm) =
          (.ok (.paused frame (e.restoreFrame frame).1), (e.restoreFrame frame).2) := by
        simp only [noted, Debuggee.frameInfo?_of_haltedAt? hplace]
        rfl
      have hflag : (e.restoreFrame frame).1 = d.vm.isPatched place := by
        have hcurrent : e.isCurrent frame = true := beq_self_eq_true _
        rw [restoreFrame_fst, hcurrent, Bool.true_and]
        exact hsame.isPatched place
      have hlocation : (Rest.halted m).location?.any d.vm.isPatched = d.vm.isPatched place := by
        rw [Rest.location?, hm, Option.any_some]
      rw [hlocation, Rest.answer, hnoted, hflag, ← hsame.programId]
      exact ⟨.halted hm, hat.of_sameCall (e.sameCall_restoreFrame frame)⟩
    · exact absurd rfl hanswer
  | .ended (.returned value) => exact ⟨.ended (.returned value), hat⟩
  | .ended (.faulted place fault) => exact ⟨.ended (.faulted place fault), hat⟩

/-- A free run comes to rest at the first trap, which can be the one the call is halted on. -/
theorem comesToRest_resume (hd : d.vm.HaltedIn program m) (hstepping : d.vm.stepping = false) :
    ComesToRest (d.resume ·)
      (m.RestsFrom program fun m => m.location?.any d.vm.isPatched = true)
      (Rest.Answered d.vm.programId true) := by
  have hflag {rest : Rest}
      (hfrom : m.RestsFrom program (fun m => m.location?.any d.vm.isPatched = true) rest)
      (last : Machine) (hlast : rest = .halted last) :
      rest.location?.any d.vm.isPatched = true := by
    subst hlast
    rcases hfrom with ⟨hstop, heq⟩ | ⟨-, k, -, hstop, -⟩
    · cases heq
      exact hstop
    · exact hstop
  constructor
  · intro rest hfrom
    obtain ⟨bound, hbound⟩ := Debuggee.exists_resume_free hd hstepping hfrom
    obtain ⟨⟨run, vm⟩, hresume⟩ := Option.isSome_iff_exists.mp hbound
    obtain ⟨rest', rfl, hat, hfrom'⟩ := Debuggee.resume_free hd hstepping hresume
    cases hfrom.unique hfrom'
    obtain ⟨hanswered, hnoted⟩ := noted_atRest hresume hat
    refine ⟨_, _, bound, hanswered.of_halted (hflag hfrom), hnoted, fun fuel hle => ?_⟩
    rw [resume_eq, Debuggee.resume_mono hle hresume, Option.map_some]
  · intro fuel answer e he
    rw [resume_eq] at he
    obtain ⟨⟨run, vm⟩, hresume, heq⟩ := Option.map_eq_some_iff.mp he
    obtain ⟨rest, rfl, hat, hfrom⟩ := Debuggee.resume_free hd hstepping hresume
    obtain ⟨hanswered, hnoted⟩ := noted_atRest hresume hat
    rw [heq] at hanswered hnoted
    exact ⟨rest, hfrom, hanswered.of_halted (hflag hfrom), hnoted⟩

/-! ## One instruction -/

/-- A debugger, whose traps are all at its breakpoints, is halted in a machine. -/
structure Ready (marks : Location → Bool) (program : Program) (m : Machine) (d : Debugger) :
    Prop where
  halted : d.vm.HaltedIn program m
  covered : d.Covered
  breakpoints : d.hasBreakpoint = marks

theorem Ready.isBreakpoint (h : Ready marks program m d) (place : Location) :
    d.isBreakpoint place = (marks place && program.hasAddress place) := by
  rw [Debugger.isBreakpoint, h.breakpoints, Debuggee.hasAddress, h.halted.plain, Option.any_some]

/-- A halted call is halted at the location of its machine. -/
theorem pausedFrame?_eq {place : Location} (h : d.vm.PausedIn program m)
    (hplace : m.location? = some place) :
    d.pausedFrame? = some ⟨d.vm.programId, place.function, place.address⟩ := by
  rw [Debugger.pausedFrame?, if_pos h.isPaused]
  exact Debuggee.frameInfo?_of_haltedAt? (h.haltedAt?.trans hplace)

/-- What comes of one instruction: the call is moved on, and a trap that stood where it came to is
one of a breakpoint, or the call ends, or the process is stopped. The answer needs no bound. -/
inductive StepLeads (marks : Location → Bool) (program : Program) (m : Machine) (d : Debugger) :
    Prop
  | moved (next : Machine) (place : Location) (onBreakpoint : Bool) (e : Debugger)
      (hstep : m.step program = some (.moved next)) (hplace : next.location? = some place)
      (he : Ready marks program next e) (hid : e.vm.programId = d.vm.programId)
      (hflag : onBreakpoint = true → e.isBreakpoint place = true)
      (hanswer : ∀ fuel, d.stepInstruction fuel =
        some (.ok (.paused ⟨d.vm.programId, place.function, place.address⟩ onBreakpoint), e))
  | ended (ending : Ending) (e : Debugger)
      (hstep : (m.step program).bind Transition.ending? = some ending)
      (hat : e.vm.AtRest (.ended ending))
      (hanswer : ∀ fuel, d.stepInstruction fuel = some (ending.outcome, e))
  | stopped (hstep : m.step program = none) (hanswer : ∀ fuel, d.stepInstruction fuel = none)

/-- The debugger as it executes the instruction at a frame: without the trap there. -/
def released (d : Debugger) (origin : FrameInfo) : Debugger :=
  (d.restoreFrame origin).2.setStepping true

theorem stepInstruction_eq {origin : FrameInfo} (horigin : d.pausedFrame? = some origin)
    (fuel : Nat) :
    d.stepInstruction fuel = ((d.released origin).resume fuel).map fun (answer, e) =>
      match answer with
      | .error error => (.error error, e)
      | .ok outcome => (.ok outcome, e.rearm origin) := by
  rw [stepInstruction, horigin]
  rfl

theorem sameCall_released (d : Debugger) (origin : FrameInfo) :
    Debuggee.SameCall d.vm (d.released origin).vm :=
  (d.sameCall_restoreFrame origin).trans (Debuggee.sameCall_setStepping _ true)

/-- Only the trap in the way of a debugger that executes one instruction is taken out. -/
theorem isPatched_released (d : Debugger) (origin place : Location) :
    (d.released ⟨d.vm.programId, origin.function, origin.address⟩).vm.isPatched place =
      (d.vm.isPatched place && decide (origin ≠ place)) := by
  let frame : FrameInfo := ⟨d.vm.programId, origin.function, origin.address⟩
  have hcurrent : d.isCurrent frame = true := beq_self_eq_true _
  have hrestored := d.isPatched_restoreFrame frame place
  rw [hcurrent, Bool.true_and, ← decide_not] at hrestored
  exact hrestored

/-- A single step from a released location comes to rest by the next instruction of the program as it
was written, unless that stops the process. -/
theorem resume_released {origin : Location} (h : d.vm.PausedIn program m)
    (horigin : m.location? = some origin) :
    let e := d.released ⟨d.vm.programId, origin.function, origin.address⟩
    (m.step program = none ∧ ∀ fuel, e.resume fuel = none) ∨
    ∃ rest answer t, (m.step program).bind Transition.rest? = some rest ∧
      (∀ last, rest = .halted last → last.frames ≠ []) ∧ t.vm.AtRest rest ∧
      rest.Answered d.vm.programId (rest.location?.any e.vm.isPatched) answer ∧
      ∀ fuel, e.resume fuel = some (answer, t) := by
  intro e
  have hsame : Debuggee.SameCall d.vm e.vm := d.sameCall_released _
  have hfree : m.location?.any e.vm.isPatched = false := by
    rw [horigin, Option.any_some, isPatched_released, decide_eq_false (not_not_intro rfl),
      Bool.and_false]
  rcases Debuggee.resume_step (h.of_sameCall hsame) rfl with
    ⟨-, hnone, hresume⟩ | ⟨rest, vm, hresume, hat, hframes, hnext⟩
  · exact .inl ⟨hnone, fun fuel => by rw [resume_eq, hresume fuel, Option.map_none]⟩
  · rw [hfree, if_neg Bool.false_ne_true] at hnext
    obtain ⟨hanswered, hnoted⟩ := noted_atRest (hresume 0) hat
    refine .inr ⟨rest, _, _, hnext, hframes, hnoted, hsame.programId ▸ hanswered, fun fuel => ?_⟩
    rw [resume_eq, hresume fuel, Option.map_some]

/-- A step that halted again keeps the program and the set of breakpoints, whether or not the location
that it left is armed again. -/
theorem pausedIn_rearm {origin : FrameInfo} {t : Debugger} {next : Machine}
    (h : d.vm.PausedIn program m) (hresumed : (d.released origin).Resumed t)
    (hat : t.vm.AtRest (.halted next)) (hframes : next.frames ≠ []) :
    (t.rearm origin).vm.PausedIn program next ∧
      (t.rearm origin).vm.programId = d.vm.programId ∧
      (t.rearm origin).hasBreakpoint = d.hasBreakpoint := by
  have hrearmed := t.sameCall_rearm origin
  refine ⟨⟨?_, hrearmed.state.trans hat.1, hrearmed.machine.trans hat.2, hframes⟩, ?_, ?_⟩
  · calc (t.rearm origin).vm.plain?
      _ = t.vm.plain? := hrearmed.plain
      _ = (d.released origin).vm.plain? := hresumed.plain
      _ = d.vm.plain? := (d.sameCall_released origin).plain
      _ = some program := h.plain
  · calc (t.rearm origin).vm.programId
      _ = t.vm.programId := hrearmed.programId
      _ = (d.released origin).vm.programId := hresumed.programId
      _ = d.vm.programId := (d.sameCall_released origin).programId
  · funext place
    rw [hasBreakpoint, breakpoints_rearm, hresumed.breakpoints]
    exact congrArg (·.contains place) (breakpoints_restoreFrame d origin)

/-- A step that moved the call on leaves the debugger ready in the next machine. -/
theorem Ready.rearm {origin : FrameInfo} {t : Debugger} {next : Machine}
    (h : Ready marks program m d) (hresumed : (d.released origin).Resumed t)
    (hstep : m.step program = some (.moved next)) (hat : t.vm.AtRest (.halted next)) :
    Ready marks program next (t.rearm origin) := by
  have hcovered : (d.released origin).Covered := h.covered.restoreFrame origin
  obtain ⟨hpaused, -, hset⟩ :=
    pausedIn_rearm h.halted.pausedIn hresumed hat (Machine.frames_ne_nil_of_step hstep)
  exact ⟨⟨hpaused.plain, h.halted.trapFree, hpaused.state, hpaused.machine, hpaused.frames_ne_nil⟩,
    (hcovered.of_resumed hresumed).rearm origin, hset.trans h.breakpoints⟩

theorem Ready.stepLeads (h : Ready marks program m d) : StepLeads marks program m d := by
  obtain ⟨first, hfirst⟩ := Debuggee.location?_eq_some h.halted.frames_ne_nil
  let origin : FrameInfo := ⟨d.vm.programId, first.function, first.address⟩
  have hanswer := stepInstruction_eq (pausedFrame?_eq h.halted.pausedIn hfirst)
  rcases resume_released h.halted.pausedIn hfirst with
    ⟨hnone, hresume⟩ | ⟨rest, answer, t, hrest, hframes, hat, hanswered, hresume⟩
  · exact .stopped hnone fun fuel => by rw [hanswer, hresume, Option.map_none]
  have hstep : m.StepsTo program rest := h.halted.stepsTo hrest
  have hresumed : (d.released origin).Resumed t := resumed_resume (hresume 0)
  simp only [hresume, Option.map_some] at hanswer
  have hrearmed := t.sameCall_rearm origin
  cases hanswered with
  | @halted next place hplace =>
    have hid := (pausedIn_rearm h.halted.pausedIn hresumed hat (hframes next rfl)).2.1
    refine .moved next place _ (t.rearm origin) hstep hplace (h.rearm hresumed hstep hat) hid ?_
      hanswer
    intro hflag
    rw [Rest.location?, hplace, Option.any_some] at hflag
    have hcovered : (d.released origin).Covered := h.covered.restoreFrame origin
    have hbreakpoint := hcovered.isBreakpoint hflag
    rwa [← hresumed.isBreakpoint,
      ← isBreakpoint_of_sameCall hrearmed (breakpoints_rearm t origin)] at hbreakpoint
  | ended ending =>
    match ending with
    | .returned value =>
      exact .ended (.returned value) (t.rearm origin) hstep (hat.of_sameCall hrearmed) hanswer
    | .faulted place fault => exact .ended (.faulted place fault) t hstep hat hanswer

/-! ## A free run -/

/-- Before a free run all breakpoints of the loaded program are armed, and nothing else is. -/
theorem Covered.isPatched_rearmAll_eq (h : d.Covered) : d.rearmAll.vm.isPatched = d.isBreakpoint := by
  funext place
  rw [isPatched_rearmAll]
  cases hpatched : d.vm.isPatched place with
  | false => rfl
  | true => rw [h.isBreakpoint hpatched, Bool.true_or]

/-- The breakpoints of the loaded program do not change while a call goes on. -/
theorem Ready.isBreakpoint_eq {next : Machine} {e : Debugger} (h : Ready marks program m d)
    (he : Ready marks program next e) : e.isBreakpoint = d.isBreakpoint := by
  funext place
  rw [he.isBreakpoint, h.isBreakpoint]

/-- A free run with all breakpoints armed comes to rest at the first of them. -/
theorem Ready.comesToRest_resume (h : Ready marks program m d) :
    ComesToRest ((d.rearmAll.setStepping false).resume ·)
      (m.RestsFrom program fun m => m.location?.any d.isBreakpoint = true)
      (Rest.Answered d.vm.programId true) := by
  have hsame : Debuggee.SameCall d.vm (d.rearmAll.setStepping false).vm :=
    d.sameCall_rearmAll.trans (Debuggee.sameCall_setStepping _ false)
  rw [← h.covered.isPatched_rearmAll_eq, ← hsame.programId]
  exact Debugger.comesToRest_resume (h.halted.of_sameCall hsame) rfl

/-- The commands that execute one instruction and, unless it came to a trap, run on. -/
def stepThen (go : FrameInfo → Debugger → Nat → Answer StepOutcome) (d : Debugger) (fuel : Nat) :
    Answer StepOutcome :=
  match d.stepInstruction fuel with
  | none => none
  | some (.error error, e) => some (.error error, e)
  | some (.ok (.paused frame false), e) => reported (go frame e fuel)
  | some (.ok outcome, e) => reported (some (.ok outcome, e))

/-- Such a command comes to rest at the first machine to stop at, if the run after its instruction
does and every breakpoint of the loaded program is one to stop at. -/
theorem Ready.comesToRest_stepThen {go : FrameInfo → Debugger → Nat → Answer StepOutcome}
    {stop : Machine → Prop} (h : Ready marks program m d)
    (hstop : ∀ m, m.location?.any d.isBreakpoint = true → stop m)
    (hgo : ∀ frame next e, Ready marks program next e → e.vm.programId = d.vm.programId →
      ComesToRest (go frame e) (next.RestsFrom program stop) (Rest.Answered d.vm.programId true)) :
    ComesToRest (d.stepThen go) (m.RestsAt program stop) (Rest.Answered d.vm.programId true) := by
  cases h.stepLeads with
  | moved next place onBreakpoint e hstep hplace he hid hflag hanswer =>
    let frame : FrameInfo := ⟨d.vm.programId, place.function, place.address⟩
    cases onBreakpoint with
    | true =>
      have hcommand : d.stepThen go = fun _ => reported (some (.ok (.paused frame true), e)) := by
        funext fuel
        simp only [stepThen, hanswer, frame]
      have hnext : stop next := by
        apply hstop
        rw [hplace, Option.any_some, ← h.isBreakpoint_eq he]
        exact hflag rfl
      rw [hcommand]
      apply ComesToRest.reported
      apply ComesToRest.const (fun r => Machine.restsAt_of_stop hstep hnext) (.halted hplace)
      exact ⟨he.halted.state, he.halted.machine⟩
    | false =>
      have hcommand : d.stepThen go = fun fuel => reported (go frame e fuel) := by
        funext fuel
        simp only [stepThen, hanswer, frame]
      rw [hcommand]
      exact (hgo frame next e he hid).reported.of_iff fun r => (Machine.restsAt_of_moved hstep).symm
  | ended ending e hstep hat hanswer =>
    have hcommand : d.stepThen go = fun _ => reported (some (ending.outcome, e)) := by
      funext fuel
      cases ending with
      | returned value => simp only [stepThen, hanswer, Ending.outcome]
      | faulted place fault =>
        simp only [stepThen, hanswer, Ending.outcome]
        rfl
    rw [hcommand]
    apply ComesToRest.reported
    exact ComesToRest.const (fun r => Machine.restsAt_of_ended hstep) (.ended ending) hat
  | stopped hstep hanswer =>
    apply ComesToRest.of_eq_none fun r => Machine.not_restsAt_of_step_eq_none hstep
    intro fuel
    simp only [stepThen, hanswer]

/-- `proceed` comes to rest at the first breakpoint of the loaded program. -/
theorem Ready.comesToRest_proceed (h : Ready marks program m d) :
    ComesToRest (d.proceed ·)
      (m.RestsAt program fun m => m.location?.any d.isBreakpoint = true)
      (Rest.Answered d.vm.programId true) := by
  have hcommand : (d.proceed ·) =
      d.stepThen fun _ e fuel => (e.rearmAll.setStepping false).resume fuel := by
    funext fuel
    rw [proceed, stepThen]
    rcases d.stepInstruction fuel with _ | ⟨error | outcome, e⟩
    · rfl
    · rfl
    · cases outcome with
      | paused frame onBreakpoint => cases onBreakpoint <;> rfl
      | finished value => rfl
  rw [hcommand]
  apply h.comesToRest_stepThen
  · exact fun m hm => hm
  · intro frame next e he hid
    rw [← hid, ← h.isBreakpoint_eq he]
    exact he.comesToRest_resume

/-! ## Steps -/

/-- Stepping ends at a trap, and by its rule. -/
theorem isStopPoint_iff {place : Location} {onBreakpoint : Bool} (h : d.vm.PausedIn program m)
    (hplace : m.location? = some place) :
    d.isStopPoint (.paused ⟨d.vm.programId, place.function, place.address⟩ onBreakpoint) = true ↔
      onBreakpoint = true ∨ m.AtStopPoint d.hasBreakpoint program := by
  have hspan : d.span? ⟨d.vm.programId, place.function, place.address⟩ = m.span? program :=
    Stepper.span?_eq (s := .ofDebugger d) h hplace
  have hlocation : FrameInfo.location ⟨d.vm.programId, place.function, place.address⟩ = place := rfl
  rw [Machine.AtStopPoint, hplace, Option.any_some, isStopPoint, hspan, hlocation,
    Bool.or_eq_true_iff, Bool.or_eq_true_iff, or_assoc]

/-- Whether stepping ends is seen from the machine alone. A halt on a trap is one at a breakpoint,
so it adds nothing. -/
theorem Ready.isStopPoint_iff {place : Location} {onBreakpoint : Bool}
    (h : Ready marks program m d) (hplace : m.location? = some place)
    (hflag : onBreakpoint = true → d.isBreakpoint place = true) :
    d.isStopPoint (.paused ⟨d.vm.programId, place.function, place.address⟩ onBreakpoint) = true ↔
      m.AtStopPoint marks program := by
  rw [Debugger.isStopPoint_iff h.halted.pausedIn hplace, h.breakpoints, or_iff_right_of_imp]
  intro hnote
  have hset := (Bool.and_eq_true_iff.mp (hflag hnote)).1
  rw [h.breakpoints] at hset
  rw [Machine.AtStopPoint, hplace, Option.any_some]
  exact .inl hset

/-- Stepping is over after the next instruction, or goes on from the machine after it, unless the
process is stopped. -/
theorem Ready.stepToStopPoint_cases (h : Ready marks program m d) :
    (∃ rest answer onBreakpoint e,
      (∀ r, m.RestsAt program (·.AtStopPoint marks program) r ↔ r = rest) ∧
      rest.Answered d.vm.programId onBreakpoint answer ∧ e.vm.AtRest rest ∧
      ∀ fuel, d.stepToStopPoint (fuel + 1) = some (answer, e)) ∨
    (∃ next e, m.step program = some (.moved next) ∧ ¬next.AtStopPoint marks program ∧
      Ready marks program next e ∧ e.vm.programId = d.vm.programId ∧
      ∀ fuel, d.stepToStopPoint (fuel + 1) = e.stepToStopPoint fuel) ∨
    m.step program = none ∧ ∀ fuel, d.stepToStopPoint (fuel + 1) = none := by
  cases h.stepLeads with
  | moved next place onBreakpoint e hstep hplace he hid hflag hanswer =>
    have hiff := he.isStopPoint_iff hplace hflag
    rw [hid] at hiff
    by_cases hstop : next.AtStopPoint marks program
    · refine .inl ⟨.halted next, _, onBreakpoint, e, fun r => Machine.restsAt_of_stop hstep hstop,
        .halted hplace, ⟨he.halted.state, he.halted.machine⟩, fun fuel => ?_⟩
      simp only [stepToStopPoint, hanswer, hiff.mpr hstop, if_true]
    · refine .inr (.inl ⟨next, e, hstep, hstop, he, hid, fun fuel => ?_⟩)
      simp only [stepToStopPoint, hanswer, hiff, hstop, if_false]
  | ended ending e hstep hat hanswer =>
    refine .inl ⟨.ended ending, _, false, e, fun r => Machine.restsAt_of_ended hstep,
      .ended ending, hat, fun fuel => ?_⟩
    cases ending with
    | returned value =>
      simp only [stepToStopPoint, hanswer, Ending.outcome]
      rfl
    | faulted place fault => simp only [stepToStopPoint, hanswer, Ending.outcome]
  | stopped hstep hanswer =>
    refine .inr (.inr ⟨hstep, fun fuel => ?_⟩)
    simp only [stepToStopPoint, hanswer]

/-- What stepping is answered by is where the trace comes to rest, by induction on the bound. -/
theorem Ready.stepToStopPoint_sound {answer : Except DebugError StepOutcome}
    (h : Ready marks program m d) (hstep : d.stepToStopPoint fuel = some (answer, d')) :
    ∃ rest, m.RestsAt program (·.AtStopPoint marks program) rest ∧
      (∃ onBreakpoint, rest.Answered d.vm.programId onBreakpoint answer) ∧ d'.vm.AtRest rest := by
  induction fuel generalizing d m with
  | zero => cases hstep
  | succ fuel ih =>
    rcases h.stepToStopPoint_cases with
      ⟨rest, answer', onBreakpoint, e, hrests, hanswered, hat, hanswer⟩ |
      ⟨next, e, hmoved, hpass, he, hid, hgoes⟩ | ⟨-, hnone⟩
    · rw [hanswer] at hstep
      cases hstep
      exact ⟨rest, (hrests rest).mpr rfl, ⟨onBreakpoint, hanswered⟩, hat⟩
    · rw [hgoes] at hstep
      obtain ⟨rest, hrests, hanswered, hat⟩ := ih he hstep
      rw [hid] at hanswered
      exact ⟨rest, (Machine.restsAt_of_pass hmoved hpass).mpr hrests, hanswered, hat⟩
    · rw [hnone] at hstep
      cases hstep

/-- Every debugger that is ready in a machine steps to the rest of its trace. -/
def StepsTo (marks : Location → Bool) (program : Program) (rest : Rest) (m : Machine) : Prop :=
  ∀ d, Ready marks program m d → m.RestsAt program (·.AtStopPoint marks program) rest →
    ∃ answer e bound, (∃ onBreakpoint, rest.Answered d.vm.programId onBreakpoint answer) ∧
      e.vm.AtRest rest ∧ ∀ fuel ≥ bound, d.stepToStopPoint fuel = some (answer, e)

theorem stepsTo_of_next (hnext : ∀ next, m.step program = some (.moved next) →
    ¬next.AtStopPoint marks program → StepsTo marks program rest next) :
    StepsTo marks program rest m := by
  intro d h hrests
  rcases h.stepToStopPoint_cases with
    ⟨rest', answer, onBreakpoint, e, hrests', hanswered, hat, hanswer⟩ |
    ⟨next, e, hmoved, hpass, he, hid, hgoes⟩ | ⟨hnone, -⟩
  · cases (hrests' rest).mp hrests
    refine ⟨answer, e, 1, ⟨onBreakpoint, hanswered⟩, hat, fun fuel hle => ?_⟩
    obtain ⟨n, rfl⟩ : ∃ n, fuel = n + 1 := ⟨fuel - 1, by omega⟩
    exact hanswer n
  · rw [Machine.restsAt_of_pass hmoved hpass] at hrests
    obtain ⟨answer, t, bound, hanswered, hat, hbound⟩ := hnext next hmoved hpass e he hrests
    refine ⟨answer, t, bound + 1, hid ▸ hanswered, hat, fun fuel hle => ?_⟩
    obtain ⟨n, rfl⟩ : ∃ n, fuel = n + 1 := ⟨fuel - 1, by omega⟩
    rw [hgoes]
    exact hbound n (by omega)
  · exact absurd hrests (Machine.not_restsAt_of_step_eq_none hnone)

/-- Where the trace comes to rest, stepping is answered, by induction on the instructions up to the
rest. -/
theorem stepsTo_of_restsAt (hrests : m.RestsAt program (·.AtStopPoint marks program) rest) :
    StepsTo marks program rest m := by
  apply hrests.induction (P := StepsTo marks program rest)
  · intro m next hmoved hstop
    apply stepsTo_of_next
    intro next' hmoved' hpass
    cases hmoved.symm.trans hmoved'
    exact absurd hstop hpass
  · intro m next hmoved hpass ih
    apply stepsTo_of_next
    intro next' hmoved' _
    cases hmoved.symm.trans hmoved'
    exact ih
  · intro m ending hends
    apply stepsTo_of_next
    intro next hmoved _
    rw [hmoved] at hends
    cases hends

theorem Ready.comesToRest_stepToStopPoint (h : Ready marks program m d) :
    ComesToRest (d.stepToStopPoint ·) (m.RestsAt program (·.AtStopPoint marks program))
      fun rest answer => ∃ onBreakpoint, rest.Answered d.vm.programId onBreakpoint answer := by
  constructor
  · intro rest hrests
    exact stepsTo_of_restsAt hrests d h hrests
  · intro fuel answer e hstep
    exact h.stepToStopPoint_sound hstep

end Debugger

/-! ## Sessions -/

namespace Debuggee

variable {vm vm' running : Debuggee}

/-- A run request starts in a loaded program. -/
theorem IsSound.of_issues (hvm : vm.IsSound) (h : vm.Issues running) :
    running.IsSound ∧ running.plain?.isSome := by
  cases h with
  | call args hidle hprogram hname hroutine =>
    refine ⟨⟨hvm.trapFree, fun hpaused => ?_⟩, ?_⟩
    · exact absurd (hidle.symm.trans hpaused) Bool.false_ne_true
    · have hloaded : vm.plain?.isSome := by
        rw [plain?, hprogram]
        rfl
      exact hloaded
  | resume hpaused => exact ⟨hvm, (hvm.halted hpaused).1⟩

theorem IsSound.of_serves {runs : List ServedRun} (hvm : vm.IsSound) (h : vm.Serves runs vm') :
    vm'.IsSound := by
  induction h with
  | refl => exact hvm
  | touch _ htouch ih => exact ih.of_sameCall htouch.sameCall
  | run _ r hissued ih =>
    obtain ⟨hrunning, hloaded⟩ := ih.of_issues hissued
    exact hrunning.of_run hloaded r.served

end Debuggee

/-- The operations of a debugger and of the debuggee within, except patching at a given location.
Only programs without patches and without traps of their own are loaded. -/
def Operation.IsDebugging : Operation → Prop
  | .vm (.load program) | .debugger (.load program) => program.IsPlain ∧ program.TrapFree
  | .debugger (.patch _) => False
  | .vm _ | .debugger _ => True
  | _ => False

section

variable {fuel : Nat} {reply : Reply}

theorem Operation.IsDebugging.keepsToBreakpoints {operation : Operation}
    (h : operation.IsDebugging) : operation.KeepsToBreakpoints := by
  cases operation with
  | vm operation =>
    cases operation with
    | load program => exact h.1
    | _ => exact trivial
  | debugger operation =>
    cases operation with
    | load program => exact h.1
    | patch place => exact h
    | _ => exact trivial
  | stepper operation => exact h.elim
  | wrap => exact h.elim
  | unwrap => exact h

theorem Debuggee.IsSound.perform {vm vm' : Debuggee} {operation : VmOperation} (hvm : vm.IsSound)
    (hdebugging : (Operation.vm operation).IsDebugging)
    (h : vm.perform fuel operation = some (reply, vm')) : vm'.IsSound := by
  cases operation with
  | load program =>
    cases h
    exact isSound_load vm hdebugging.2
  | call name args =>
    obtain ⟨⟨answer, vm⟩, hcall, heq⟩ := Option.map_eq_some_iff.mp h
    cases heq
    exact hvm.of_call hcall
  | resume =>
    obtain ⟨⟨answer, vm⟩, hresume, heq⟩ := Option.map_eq_some_iff.mp h
    cases heq
    exact hvm.of_resume hresume
  | _ => exact hvm.of_sameCall (quiet_perform rfl h).1

theorem Debugger.isSound_perform {d d' : Debugger} {operation : DebuggerOperation}
    (hd : d.vm.IsSound) (hdebugging : (Operation.debugger operation).IsDebugging)
    (h : d.perform fuel operation = some (reply, d')) : d'.vm.IsSound := by
  by_cases hloads : (Operation.debugger operation).loads = true
  · cases operation with
    | load program =>
      cases h
      have hloaded := Debuggee.isSound_load d.vm hdebugging.2
      exact hloaded.of_sameCall (d.sameCall_load program)
    | _ => cases hloads
  · obtain ⟨runs, hserves⟩ := serves_perform (by simpa using hloads) h
    exact hd.of_serves hserves

end

namespace Host

variable {d₀ d : Debugger} {host : Host} {program : Program} {failed : Bool}

/-- What a session of a debugger keeps: a sound debuggee, and no trap but at a breakpoint. -/
theorem Session.debugging (hnew : d₀.IsNew)
    (hsession : Session Operation.IsDebugging (.debugger d₀) failed host) :
    ∃ d, host = .debugger d ∧ d.Covered ∧ d.vm.IsSound := by
  induction hsession with
  | new =>
    refine ⟨d₀, rfl, hnew.covered, ?_, ?_⟩ <;> rw [hnew.vm]
    · nofun
    · nofun
  | @perform failed host host' fuel operation reply before hdebugging h ih =>
    obtain ⟨d, rfl, hcovered, hsound⟩ := ih
    have hkept := Covered.perform hdebugging.keepsToBreakpoints ⟨d, rfl, hcovered⟩ h
    match operation with
    | .vm operation =>
      obtain ⟨⟨reply, vm⟩, hperform, heq⟩ := Option.map_eq_some_iff.mp h
      cases heq
      obtain ⟨_, hdebugger, hcovered⟩ := hkept
      cases hdebugger
      exact ⟨_, rfl, hcovered, hsound.perform hdebugging hperform⟩
    | .debugger operation =>
      obtain ⟨⟨reply, d'⟩, hperform, heq⟩ := Option.map_eq_some_iff.mp h
      cases heq
      obtain ⟨_, hdebugger, hcovered⟩ := hkept
      cases hdebugger
      exact ⟨d', rfl, hcovered, Debugger.isSound_perform hsound hdebugging hperform⟩
    | .stepper operation => exact hdebugging.elim
    | .wrap => exact hdebugging.elim
    | .unwrap => exact hdebugging.elim

theorem Session.ready (hnew : d₀.IsNew)
    (hsession : Session Operation.IsDebugging (.debugger d₀) failed (.debugger d))
    (hprogram : d.vm.plain? = some program) (hpaused : d.vm.isPaused = true) :
    Debugger.Ready d.hasBreakpoint program d.vm.machine d := by
  obtain ⟨_, heq, hcovered, hsound⟩ := hsession.debugging hnew
  cases heq
  obtain ⟨program', hhalted⟩ := hsound.haltedIn hpaused
  cases hhalted.plain.symm.trans hprogram
  exact ⟨hhalted, hcovered, rfl⟩

/-- In a session of a debugger, also after failed runs, a command given to a halted call comes to
rest exactly where the plain trace does: `proceed` on the first breakpoint of the loaded program,
which it says it is on, and `stepInto` at the first location that is in the set of breakpoints or
has a span. If the trace ends before, so does the command. -/
theorem Session.proceed_stepInto_stop (hnew : d₀.IsNew)
    (hsession : Session Operation.IsDebugging (.debugger d₀) failed (.debugger d))
    (hprogram : d.vm.plain? = some program) (hpaused : d.vm.isPaused = true) :
    Debugger.ComesToRest (d.proceed ·)
      (d.vm.machine.RestsAt program fun m => m.location?.any d.isBreakpoint = true)
      (Rest.Answered d.vm.programId true) ∧
    Debugger.ComesToRest (d.stepInto ·)
      (d.vm.machine.RestsAt program fun m =>
        m.location?.any d.hasBreakpoint = true ∨ (m.span? program).isSome = true)
      (fun rest answer => ∃ onBreakpoint, rest.Answered d.vm.programId onBreakpoint answer) := by
  have hready := hsession.ready hnew hprogram hpaused
  exact ⟨hready.comesToRest_proceed, hready.comesToRest_stepToStopPoint.reported⟩

end Host

/-- A program that jumps to its only instruction for ever. -/
def Program.spin : Program :=
  single "spin" #[{ op := .jump, immediate := -1 }]

/-- A debugger whose call is halted on a breakpoint at that instruction. -/
def Debugger.onSpin : Debugger :=
  match (({} : Debugger).load .spin).2.set ⟨0, 0⟩ |>.call 9 "spin" #[] with
  | some (_, d) => d
  | none => {}

theorem Host.Session.onSpin :
    Session Operation.IsDebugging (.debugger {}) false (.debugger .onSpin) := by
  have hloaded : Session Operation.IsDebugging (.debugger {}) false
      (.debugger (({} : Debugger).load .spin).2) :=
    .perform .new (show Program.spin.IsPlain ∧ Program.spin.TrapFree by decide)
      (show Host.perform 0 _ (.debugger (.load .spin)) = some _ from rfl)
  have hset := hloaded.perform (by exact trivial)
    (show Host.perform 0 _ (.debugger (.set ⟨0, 0⟩)) = some _ from rfl)
  exact hset.perform (by exact trivial)
    (show Host.perform 9 _ (.debugger (.call "spin" #[])) =
      some (.stopped .paused, .debugger .onSpin) from rfl)

/-- From the breakpoint on an instruction that jumps to itself, both commands come to rest after one
instruction on the same breakpoint, although its trap is taken out while the instruction is
executed. -/
theorem Host.Session.proceed_stepInto_stop_spin :
    Debugger.onSpin.vm.haltedAt? = some ⟨0, 0⟩ ∧
      (∃ d bound, d.vm.AtRest (.halted Debugger.onSpin.vm.machine) ∧
        ∀ fuel ≥ bound,
          Debugger.onSpin.proceed fuel = some (.ok (.paused ⟨⟨0⟩, 0, 0⟩ true), d)) ∧
      ∃ d bound onBreakpoint, d.vm.AtRest (.halted Debugger.onSpin.vm.machine) ∧
        ∀ fuel ≥ bound,
          Debugger.onSpin.stepInto fuel = some (.ok (.paused ⟨⟨0⟩, 0, 0⟩ onBreakpoint), d) := by
  have hspins : Debugger.onSpin.vm.machine.step .spin =
      some (.moved Debugger.onSpin.vm.machine) := by
    decide +kernel
  have hplace : Debugger.onSpin.vm.machine.location? = some ⟨0, 0⟩ := by decide +kernel
  obtain ⟨hproceed, hstepInto⟩ := Host.Session.proceed_stepInto_stop ⟨rfl, rfl, rfl⟩ .onSpin
    (show _ = some Program.spin by decide +kernel) (by decide +kernel)
  refine ⟨by decide +kernel, ?_, ?_⟩
  · obtain ⟨answer, d, bound, hanswered, hat, hbound⟩ := hproceed.reaches _
      ((Machine.restsAt_of_stop hspins (by decide +kernel)).mpr rfl)
    cases hanswered with
    | halted hhalted =>
      cases hplace.symm.trans hhalted
      exact ⟨d, bound, hat, hbound⟩
  · obtain ⟨answer, d, bound, ⟨onBreakpoint, hanswered⟩, hat, hbound⟩ := hstepInto.reaches _
      ((Machine.restsAt_of_stop hspins (.inl (by decide +kernel))).mpr rfl)
    cases hanswered with
    | halted hhalted =>
      cases hplace.symm.trans hhalted
      exact ⟨d, bound, onBreakpoint, hat, hbound⟩

end BytecodeDebugger
