import BytecodeDebugger.Proofs.Armed
import BytecodeDebugger.Proofs.StopRule

/-!
# Commands stop exactly where they are to stop

A stepping command of a stepper comes to rest at the first machine of the plain trace, after at least
one instruction, that stands on a breakpoint or meets the stop rule of the command, and at the end of
the call if there is none before. It comes to rest nowhere else, and if the trace does, so does the
command.

## Implementation notes

A loop can lead back to the location a step started from. Its breakpoint is then armed again while
the call is halted on it and no halt on a breakpoint is noted. The next request does not move the
call: it runs into the trap, notes the halt, and so ends the plan where it was to stop. `Walks`
leaves room for this, so it says nothing about the location halted at being free of a trap.
-/

namespace BytecodeDebugger

namespace Rest

/-- The answer to a command that came to rest so: that it is over, or that the call failed. -/
def outcome : Rest → Except DebugError Bool
  | .halted _ => .ok true
  | .ended (.returned _) => .ok true
  | .ended (.faulted place fault) => .error (.run (.fault place fault))

end Rest

namespace Stepper

/-- A stepper whose breakpoints are armed is halted in a machine. -/
structure Ready (marks : Location → Bool) (program : Program) (m : Machine) (s : Stepper) :
    Prop where
  halted : s.vm.HaltedIn program m
  armed : s.Armed
  breakpoints : s.debugger.isBreakpoint = marks

/-- A stepper that has moved on: a noted halt on a breakpoint is one. -/
structure Walks (marks : Location → Bool) (program : Program) (m : Machine) (s : Stepper) :
    Prop extends Ready marks program m s where
  noted : s.onBreakpoint = true → m.location?.any marks = true

variable {s s' : Stepper} {marks : Location → Bool} {program : Program} {start m : Machine}
  {rest : Rest} {fuel : Nat}

theorem Ready.withPlan (h : Ready marks program m s) (plan : Option Plan) (state : PlanState) :
    Ready marks program m { s with plan, state } :=
  ⟨h.halted, ⟨h.armed.covered, h.armed.armed⟩, h.breakpoints⟩

/-- A breakpoint without a trap is noted. -/
theorem Ready.noted_of_free (h : Ready marks program m s)
    (hfree : m.location?.any s.vm.isPatched = false) (hplace : m.location?.any marks = true) :
    s.onBreakpoint = true := by
  obtain ⟨place, hlocation, hset⟩ := (Option.any_eq_true _ _).mp hplace
  rw [hlocation, Option.any_some] at hfree
  exact (h.armed.armed place ((congrFun h.breakpoints place).trans hset) hfree).2

/-- A trap stands on a breakpoint. -/
theorem Ready.breakpoint_of_patched (h : Ready marks program m s)
    (hpatched : m.location?.any s.vm.isPatched = true) : m.location?.any marks = true := by
  obtain ⟨place, hlocation, hplace⟩ := (Option.any_eq_true _ _).mp hpatched
  rw [hlocation, Option.any_some, ← h.breakpoints]
  exact h.armed.isBreakpoint hplace

/-- A single step that moved the call on. -/
theorem Ready.walks (h : Ready marks program m s) (hstepped : s.Stepped s')
    {next : Machine} (hat : s'.vm.AtRest (.halted next)) (hnext : next.frames ≠ []) :
    Walks marks program next s' := by
  refine ⟨⟨⟨?_, h.halted.trapFree, hat.1, hat.2, hnext⟩, h.armed.of_stepped hstepped, ?_⟩, ?_⟩
  · exact hstepped.plain.trans h.halted.plain
  · rw [← h.breakpoints]
    exact funext hstepped.isBreakpoint
  · intro hnote
    have hpatched : next.location?.any s.vm.isPatched = true := by
      rw [← hat.haltedAt?, ← hstepped.onBreakpoint]
      exact hnote
    obtain ⟨place, hlocation, hplace⟩ := (Option.any_eq_true _ _).mp hpatched
    rw [hlocation, Option.any_some, ← h.breakpoints]
    exact h.armed.isBreakpoint hplace

/-! ## One request of a plan -/

/-- Asking a plan that is done ends the command. -/
theorem drive_done {plan : Plan} {starting : Bool} (hplan : s.plan = some plan)
    (hdone : (plan.next s.observe).1 = .done) (fuel : Nat) :
    s.drive starting (fuel + 1) = some (.ok (), s.complete starting s.observe.frame) := by
  have hadvance : s.advance starting fuel =
      some (.ok false, s.complete starting s.observe.frame) := by
    simp only [advance, hplan]
    split
    · rfl
    · rename_i hnext
      rw [hnext] at hdone
      cases hdone
  rw [drive, hadvance]

/-- Asking a plan that has a request serves it. -/
theorem drive_request {plan plan' : Plan} {request : Request} (hplan : s.plan = some plan)
    (hnext : plan.next s.observe = (.request request, plan')) (starting : Bool) (fuel : Nat) :
    s.drive starting (fuel + 1) =
      match ({ s with plan := some plan', state := .active } : Stepper).serve fuel request with
      | none => none
      | some (.error error, t) => some (.error error, t)
      | some (.ok (), t) => t.drive starting fuel := by
  rw [drive]
  simp only [advance, hplan, hnext]
  cases ({ s with plan := some plan', state := .active } : Stepper).serve fuel request with
  | none => rfl
  | some served =>
    obtain ⟨answer, t⟩ := served
    cases answer <;> rfl

/-- What comes of a single step that a plan asked for before it went on as `plan`. -/
inductive StepLeads (marks : Location → Bool) (program : Program) (m : Machine) (plan : Plan)
    (s : Stepper) : Prop
  /-- A trap stands in the way. The call stays where it is, and the halt is noted. -/
  | trapped (t : Stepper) (hpatched : m.location?.any s.vm.isPatched = true)
      (ht : Walks marks program m t) (hnote : t.onBreakpoint = true) (hplan : t.plan = some plan)
      (hdrive : ∀ fuel, s.drive true (fuel + 1) = t.drive true fuel)
  /-- The call is moved on by an instruction of the plain trace. -/
  | moved (next : Machine) (t : Stepper) (hfree : m.location?.any s.vm.isPatched = false)
      (hstep : m.step program = some (.moved next)) (ht : Walks marks program next t)
      (hplan : t.plan = some plan) (hdrive : ∀ fuel, s.drive true (fuel + 1) = t.drive true fuel)
  /-- The call returns. -/
  | returned (value : Int32) (t : Stepper) (hfree : m.location?.any s.vm.isPatched = false)
      (hstep : (m.step program).bind Transition.ending? = some (.returned value))
      (ht : t.vm.AtRest (.ended (.returned value))) (hplan : t.plan = some plan)
      (hdrive : ∀ fuel, s.drive true (fuel + 1) = t.drive true fuel)
  /-- The call fails, and the command with it. -/
  | faulted (place : Location) (fault : Fault) (t : Stepper)
      (hfree : m.location?.any s.vm.isPatched = false)
      (hstep : (m.step program).bind Transition.ending? = some (.faulted place fault))
      (ht : t.vm.AtRest (.ended (.faulted place fault)))
      (hdrive : ∀ fuel, s.drive true (fuel + 1) = some (.error (.run (.fault place fault)), t))
  /-- The instruction stops the process. -/
  | stopped (hfree : m.location?.any s.vm.isPatched = false) (hstep : m.step program = none)
      (hdrive : ∀ fuel, s.drive true (fuel + 1) = none)

theorem Ready.stepLeads {plan plan' : Plan} (h : Ready marks program m s)
    (hplan : s.plan = some plan) (hnext : plan.next s.observe = (.request .step, plan')) :
    StepLeads marks program m plan' s := by
  let active : Stepper := { s with plan := some plan', state := .active }
  have hactive : Ready marks program m active := h.withPlan _ _
  have hdrive := drive_request hplan hnext true
  rcases serve_eq hactive.halted (.inr rfl) with
    ⟨hfree, hnone, hserve⟩ | ⟨rest, t, hat, hstep, hserve⟩
  · refine .stopped hfree hnone fun fuel => ?_
    rw [hdrive, hserve]
  have hstep : if m.location?.any s.vm.isPatched then rest = .halted m
    else m.StepsTo program rest := hstep
  cases hpatched : m.location?.any s.vm.isPatched with
  | true =>
    rw [if_pos hpatched] at hstep
    subst hstep
    obtain ⟨hstepped, hserve⟩ := hserve
    have hnote : t.onBreakpoint = true := by
      rw [hstepped.onBreakpoint, hat.haltedAt?]
      exact hpatched
    have hwalks := hactive.walks hstepped hat h.halted.frames_ne_nil
    refine .trapped t hpatched hwalks hnote hstepped.plan fun fuel => ?_
    rw [hdrive, hserve, if_pos hnote]
  | false =>
    rw [hpatched, if_neg Bool.false_ne_true] at hstep
    match rest with
    | .halted next =>
      obtain ⟨hstepped, hserve⟩ := hserve
      have hwalks := hactive.walks hstepped hat (Machine.frames_ne_nil_of_step hstep)
      refine .moved next t hpatched hstep hwalks hstepped.plan fun fuel => ?_
      rw [hdrive, hserve]
      cases t.onBreakpoint <;> rfl
    | .ended (.returned value) =>
      obtain ⟨hstepped, hserve⟩ := hserve
      refine .returned value t hpatched hstep hat hstepped.plan fun fuel => ?_
      rw [hdrive, hserve]
    | .ended (.faulted place fault) =>
      refine .faulted place fault t hpatched hstep hat fun fuel => ?_
      rw [hdrive, hserve]

/-- Where a trap stands in the way, a single step can only note it. -/
theorem StepLeads.of_patched {plan : Plan} (h : StepLeads marks program m plan s)
    (hpatched : m.location?.any s.vm.isPatched = true) :
    ∃ t, Walks marks program m t ∧ t.onBreakpoint = true ∧ t.plan = some plan ∧
      ∀ fuel, s.drive true (fuel + 1) = t.drive true fuel := by
  cases h with
  | trapped t _ ht hnote hplan hdrive => exact ⟨t, ht, hnote, hplan, hdrive⟩
  | moved next t hfree => simp [hfree] at hpatched
  | returned value t hfree => simp [hfree] at hpatched
  | faulted place fault t hfree => simp [hfree] at hpatched
  | stopped hfree => simp [hfree] at hpatched

/-- The requests of a plan were answered at such a rest of the trace. -/
def Rested (answer : Except DebugError Unit) (s : Stepper) : Rest → Prop
  | .halted m => answer = .ok () ∧ s.vm.AtRest (.halted m)
  | .ended (.returned value) => answer = .ok () ∧ s.vm.AtRest (.ended (.returned value))
  | .ended (.faulted place fault) =>
    answer = .error (.run (.fault place fault)) ∧ s.vm.AtRest (.ended (.faulted place fault))

section

variable {stop : Machine → Prop} {plan plan' : Plan} {answer : Except DebugError Unit}

theorem Rested.complete {starting : Bool} {frame : Option FrameInfo} (h : Rested answer s rest) :
    Rested answer (s.complete starting frame) rest := by
  match rest with
  | .halted m => exact ⟨h.1, (vm_complete starting frame s).symm ▸ h.2⟩
  | .ended (.returned value) => exact ⟨h.1, (vm_complete starting frame s).symm ▸ h.2⟩
  | .ended (.faulted place fault) => exact ⟨h.1, (vm_complete starting frame s).symm ▸ h.2⟩

theorem next_of_returned {value : Int32} (hs : s.vm.AtRest (.ended (.returned value)))
    (hissued : plan.phase ≠ .start) : (plan.next s.observe).1 = .done := by
  have hpaused : s.vm.isPaused = false := by
    rw [Debuggee.isPaused, hs.1]
    rfl
  apply Plan.next_of_mustStop hissued
  rw [Plan.mustStop, frame_observe hpaused]
  exact Bool.or_true _

/-- A single step from a location without a trap, and what comes of it afterwards, come to rest where
the trace does, if what comes afterwards does. -/
theorem Ready.drive_sound (h : Ready marks program m s)
    (hfree : m.location?.any s.vm.isPatched = false) (hs : s.plan = some plan)
    (hnext : plan.next s.observe = (.request .step, plan')) (hissued : plan'.phase ≠ .start)
    (hafter : ∀ {next t}, Walks marks program next t → t.plan = some plan' →
      t.drive true fuel = some (answer, s') →
        ∃ rest, next.RestsFrom program stop rest ∧ Rested answer s' rest)
    (hdrive : s.drive true (fuel + 1) = some (answer, s')) :
    ∃ rest, m.RestsAt program stop rest ∧ Rested answer s' rest := by
  cases h.stepLeads hs hnext with
  | trapped t hpatched => simp [hfree] at hpatched
  | moved next t _ hstep ht hplan hgoes =>
    rw [hgoes] at hdrive
    obtain ⟨rest, hrest, hanswer⟩ := hafter ht hplan hdrive
    exact ⟨rest, (Machine.restsAt_of_moved hstep).mpr hrest, hanswer⟩
  | returned value t _ hstep ht hplan hgoes =>
    rw [hgoes] at hdrive
    refine ⟨.ended (.returned value), (Machine.restsAt_of_ended hstep).mpr rfl, ?_⟩
    cases fuel with
    | zero => cases hdrive
    | succ fuel =>
      rw [drive_done hplan (next_of_returned ht hissued)] at hdrive
      cases hdrive
      exact ⟨rfl, (vm_complete true t.observe.frame t).symm ▸ ht⟩
  | faulted place fault t _ hstep ht hgoes =>
    rw [hgoes] at hdrive
    cases hdrive
    exact ⟨.ended (.faulted place fault), (Machine.restsAt_of_ended hstep).mpr rfl, rfl, ht⟩
  | stopped _ hstep hgoes =>
    rw [hgoes] at hdrive
    cases hdrive

/-- A single step from a location without a trap, and what comes of it afterwards, are answered, if
what comes afterwards is and the instruction does not stop the process. -/
theorem Ready.exists_drive (h : Ready marks program m s)
    (hfree : m.location?.any s.vm.isPatched = false) (hruns : (m.step program).isSome)
    (hs : s.plan = some plan)
    (hnext : plan.next s.observe = (.request .step, plan')) (hissued : plan'.phase ≠ .start)
    (hafter : ∀ {next t}, m.step program = some (.moved next) → Walks marks program next t →
      t.plan = some plan' → ∃ fuel, (t.drive true fuel).isSome) :
    ∃ fuel, (s.drive true fuel).isSome := by
  cases h.stepLeads hs hnext with
  | trapped t hpatched => simp [hfree] at hpatched
  | moved next t _ hstep ht hplan hgoes =>
    obtain ⟨fuel, hfuel⟩ := hafter hstep ht hplan
    exact ⟨fuel + 1, by rwa [hgoes]⟩
  | returned value t _ hstep ht hplan hgoes =>
    refine ⟨2, ?_⟩
    rw [hgoes, drive_done hplan (next_of_returned ht hissued)]
    rfl
  | faulted place fault t _ hstep ht hgoes =>
    refine ⟨1, ?_⟩
    rw [hgoes]
    rfl
  | stopped _ hstep =>
    rw [hstep] at hruns
    cases hruns

end

/-! ## The walk of a stepping plan -/

section Walk

variable {command : Command} {first : Location} {plan : Plan}
  (hplan : plan = ⟨command, .stepping (Plan.originOf program start first)⟩)
  (hfirst : start.location? = some first) (hcommand : command ≠ .proceed ∧ command ≠ .single)

include hplan hfirst hcommand

/-- Whether a stepping plan is over: at a noted halt on a breakpoint, and by its rule. -/
theorem Walks.next_cases (hs : Walks marks program m s) :
    ((plan.next s.observe).1 = .done ∧ command.Stops marks program start m) ∨
      (plan.next s.observe = (.request .step, plan) ∧ s.onBreakpoint = false ∧
        ¬command.StopsAt program start m) := by
  subst hplan
  exact (Plan.next_cases hs.halted.pausedIn hfirst hcommand).imp_left
    fun ⟨hdone, hstop⟩ => ⟨hdone, hstop.imp_left hs.noted⟩

/-- Where the walk of a stepping plan ends is where its trace comes to rest. By induction on the
bound: each request leads to a machine closer to the rest, or notes a trap in the way. -/
theorem Walks.drive_sound {answer : Except DebugError Unit} (hs : Walks marks program m s)
    (hs' : s.plan = some plan) (h : s.drive true fuel = some (answer, s')) :
    ∃ rest, m.RestsFrom program (command.Stops marks program start) rest ∧
      Rested answer s' rest := by
  induction fuel generalizing s m with
  | zero => cases h
  | succ fuel ih =>
    rcases hs.next_cases hplan hfirst hcommand with ⟨hdone, hstop⟩ | ⟨hnext, hnote, hrule⟩
    · rw [drive_done hs' hdone] at h
      cases h
      refine ⟨.halted m, .inl ⟨hstop, rfl⟩, rfl, ?_⟩
      rw [vm_complete]
      exact ⟨hs.halted.state, hs.halted.machine⟩
    · cases hpatched : m.location?.any s.vm.isPatched with
      | true =>
        obtain ⟨t, ht, -, ht', hdrive⟩ := (hs.stepLeads hs' hnext).of_patched hpatched
        rw [hdrive] at h
        exact ih ht ht' h
      | false =>
        have hpass : ¬command.Stops marks program start m := by
          rintro (hplace | hstops)
          · have hnoted := hs.noted_of_free hpatched hplace
            simp [hnote] at hnoted
          · exact hrule hstops
        have hissued : plan.phase ≠ .start := hplan ▸ nofun
        obtain ⟨rest, hrest, hanswer⟩ := hs.toReady.drive_sound hpatched hs' hnext hissued ih h
        exact ⟨rest, .inr ⟨hpass, hrest⟩, hanswer⟩

/-- A stepping plan ends if its trace comes to rest, at the latest after running into a trap where it
is to stop. -/
theorem Walks.exists_drive (hs : Walks marks program m s) (hs' : s.plan = some plan)
    (hrests : m.RestsFrom program (command.Stops marks program start) rest) :
    ∃ fuel, (s.drive true fuel).isSome := by
  have hissued : plan.phase ≠ .start := hplan ▸ nofun
  have hover {t : Stepper} (ht' : t.plan = some plan) (hdone : (plan.next t.observe).1 = .done) :
      (t.drive true 1).isSome := by
    rw [drive_done ht' hdone]
    rfl
  have hfree {m : Machine} {s : Stepper} (hs : Walks marks program m s)
      (hgo : ¬command.Stops marks program start m) : m.location?.any s.vm.isPatched = false := by
    cases hpatched : m.location?.any s.vm.isPatched with
    | false => rfl
    | true => exact absurd (.inl (hs.breakpoint_of_patched hpatched)) hgo
  refine hrests.induction (P := fun m => ∀ s : Stepper, Walks marks program m s →
    s.plan = some plan → ∃ fuel, (s.drive true fuel).isSome) ?_ ?_ ?_ s hs hs'
  · intro m hstop s hs hs'
    rcases hs.next_cases hplan hfirst hcommand with ⟨hdone, -⟩ | ⟨hnext, hnote, hrule⟩
    · exact ⟨1, hover hs' hdone⟩
    · have hpatched : m.location?.any s.vm.isPatched = true := by
        cases hpatched : m.location?.any s.vm.isPatched with
        | true => rfl
        | false =>
          have hnoted := hs.noted_of_free hpatched (hstop.resolve_right hrule)
          simp [hnote] at hnoted
      obtain ⟨t, ht, hnoted, ht', hdrive⟩ := (hs.stepLeads hs' hnext).of_patched hpatched
      refine ⟨2, ?_⟩
      rw [hdrive]
      rcases ht.next_cases hplan hfirst hcommand with ⟨hdone, -⟩ | ⟨-, hnone, -⟩
      · exact hover ht' hdone
      · simp [hnone] at hnoted
  · intro m next hgo hmoved ih s hs hs'
    rcases hs.next_cases hplan hfirst hcommand with ⟨hdone, -⟩ | ⟨hnext, -⟩
    · exact ⟨1, hover hs' hdone⟩
    · apply hs.toReady.exists_drive (hfree hs hgo) (by rw [hmoved]; rfl) hs' hnext hissued
      intro next' t hmoved' ht ht'
      cases hmoved'.symm.trans hmoved
      exact ih t ht ht'
  · intro m ending hgo hending s hs hs'
    rcases hs.next_cases hplan hfirst hcommand with ⟨hdone, -⟩ | ⟨hnext, -⟩
    · exact ⟨1, hover hs' hdone⟩
    · apply hs.toReady.exists_drive (hfree hs hgo) (Machine.step_isSome_of_ended hending) hs' hnext
        hissued
      intro next t hmoved
      simp [hmoved, Transition.ending?] at hending

end Walk

/-! ## Free runs -/

section FreeRun

variable {stop : Machine → Prop} {answer : Except DebugError Unit}

theorem rested_reply (hs : s.vm.AtRest rest) : Rested (rest.reply.map fun _ => ()) s rest := by
  match rest with
  | .halted m => exact ⟨rfl, hs⟩
  | .ended (.returned value) => exact ⟨rfl, hs⟩
  | .ended (.faulted place fault) => exact ⟨rfl, hs⟩

/-- Where no halt on a breakpoint is noted, the machines on a trap are those on a breakpoint. -/
theorem Ready.isPatched_eq (h : Ready marks program m s) (hnote : s.onBreakpoint = false) :
    s.vm.isPatched = marks := by
  rw [← h.breakpoints]
  exact funext (h.armed.isPatched_eq hnote)

theorem Ready.runFreely_sound (h : Ready marks program m s) (hnote : s.onBreakpoint = false)
    (hrun : s.runFreely fuel .proceed = some (answer, s')) :
    s'.plan = s.plan ∧ ∃ rest, m.RestsFrom program (fun m => m.location?.any marks = true) rest ∧
      Rested answer s' rest := by
  obtain ⟨rest, rfl, hat, hfrom⟩ := runFreely_rests h.halted hrun
  rw [h.isPatched_eq hnote] at hfrom
  exact ⟨(resumed_runFreely hrun).plan, rest, hfrom, rested_reply hat⟩

theorem Ready.exists_runFreely (h : Ready marks program m s) (hnote : s.onBreakpoint = false)
    (hrests : m.RestsFrom program (fun m => m.location?.any marks = true) rest) :
    ∃ fuel, (s.runFreely fuel .proceed).isSome := by
  rw [← h.isPatched_eq hnote] at hrests
  exact Stepper.exists_runFreely h.halted hrests

/-- A request to run freely, from a location without a trap, comes to rest at the next breakpoint. -/
theorem Ready.serve_sound (h : Ready marks program m s)
    (hfree : m.location?.any s.vm.isPatched = false)
    (hserve : s.serve fuel .proceed = some (answer, s')) :
    (answer = .ok () → s'.plan = s.plan) ∧
      ∃ rest, m.RestsAt program (fun m => m.location?.any marks = true) rest ∧
        Rested answer s' rest := by
  cases hnote : s.onBreakpoint with
  | false =>
    rw [serve_of_not_onBreakpoint hnote] at hserve
    obtain ⟨hplan, rest, hfrom, hrested⟩ := h.runFreely_sound hnote hserve
    refine ⟨fun _ => hplan, rest, ?_, hrested⟩
    rcases hfrom with ⟨hstop, -⟩ | ⟨-, hrests⟩
    · rw [← h.isPatched_eq hnote, hfree] at hstop
      cases hstop
    · exact hrests
  | true =>
    have hfirst : s.onBreakpoint = true ∨ Request.proceed = .step := .inl hnote
    rcases serve_eq h.halted hfirst with ⟨-, -, hnone⟩ | ⟨rest, t, hat, hstep, hanswer⟩
    · rw [hnone] at hserve
      cases hserve
    rw [hfree, if_neg Bool.false_ne_true] at hstep
    match rest with
    | .halted next =>
      obtain ⟨hstepped, hanswer⟩ := hanswer
      have hwalks := h.walks hstepped hat (Machine.frames_ne_nil_of_step hstep)
      rw [hanswer] at hserve
      split at hserve
      · rename_i hnoted
        cases hserve
        refine ⟨fun _ => hstepped.plan, .halted next, ?_, rfl, hat⟩
        exact (Machine.restsAt_of_stop hstep (hwalks.noted hnoted)).mpr rfl
      · rename_i hnoted
        obtain ⟨hplan, rest, hfrom, hrested⟩ :=
          hwalks.toReady.runFreely_sound (by simpa using hnoted) hserve
        refine ⟨fun _ => hplan.trans hstepped.plan, rest, ?_, hrested⟩
        exact (Machine.restsAt_of_moved hstep).mpr hfrom
    | .ended (.returned value) =>
      obtain ⟨hstepped, hanswer⟩ := hanswer
      rw [hanswer] at hserve
      cases hserve
      refine ⟨fun _ => hstepped.plan, .ended (.returned value), ?_, rfl, hat⟩
      exact (Machine.restsAt_of_ended hstep).mpr rfl
    | .ended (.faulted place fault) =>
      rw [hanswer] at hserve
      cases hserve
      refine ⟨nofun, .ended (.faulted place fault), ?_, rfl, hat⟩
      exact (Machine.restsAt_of_ended hstep).mpr rfl

theorem Ready.exists_serve (h : Ready marks program m s)
    (hfree : m.location?.any s.vm.isPatched = false)
    (hrests : m.RestsAt program (fun m => m.location?.any marks = true) rest) :
    ∃ fuel, (s.serve fuel .proceed).isSome := by
  cases hnote : s.onBreakpoint with
  | false =>
    rw [h.isPatched_eq hnote] at hfree
    obtain ⟨fuel, hfuel⟩ := h.exists_runFreely hnote (.inr ⟨by simp [hfree], hrests⟩)
    exact ⟨fuel, by rwa [serve_of_not_onBreakpoint hnote]⟩
  | true =>
    have hfirst : s.onBreakpoint = true ∨ Request.proceed = .step := .inl hnote
    rcases serve_eq h.halted hfirst with ⟨-, hnone, -⟩ | ⟨rest', t, hat, hstep, hanswer⟩
    · exact absurd hrests (Machine.not_restsAt_of_step_eq_none hnone)
    rw [hfree, if_neg Bool.false_ne_true] at hstep
    match rest' with
    | .halted next =>
      obtain ⟨hstepped, hanswer⟩ := hanswer
      have hwalks := h.walks hstepped hat (Machine.frames_ne_nil_of_step hstep)
      cases hnoted : t.onBreakpoint with
      | true => exact ⟨0, by rw [hanswer, hnoted]; rfl⟩
      | false =>
        obtain ⟨fuel, hfuel⟩ := hwalks.toReady.exists_runFreely hnoted
          ((Machine.restsAt_of_moved hstep).mp hrests)
        exact ⟨fuel, by rwa [hanswer, hnoted, if_neg Bool.false_ne_true]⟩
    | .ended (.returned value) => exact ⟨0, by rw [hanswer.2]; rfl⟩
    | .ended (.faulted place fault) => exact ⟨0, by rw [hanswer]; rfl⟩

end FreeRun

/-! ## Commands -/

section Commands

variable {command : Command}

/-- The machines at which a command that runs freely stops. -/
theorem stops_proceed :
    Command.Stops marks program start .proceed = fun m => m.location?.any marks = true := by
  funext m
  simp [Command.Stops, Command.StopsAt]

/-- A command that ends by its own rule asks for a single step first, and remembers its start. -/
theorem next_begin {first : Location} (hs : s.vm.PausedIn program m)
    (hfirst : m.location? = some first) (hcommand : command ≠ .proceed ∧ command ≠ .single) :
    Plan.next { command } s.observe =
      (.request .step, ⟨command, .stepping (Plan.originOf program m first)⟩) := by
  rw [observe_eq hs hfirst]
  match command with
  | .proceed => exact absurd rfl hcommand.1
  | .single => exact absurd rfl hcommand.2
  | .into => rfl
  | .over => rfl
  | .out => rfl

/-- The one request of a command that executes an instruction. -/
theorem next_single (o : Observation) :
    Plan.next { command := .single } o = (.request .step, ⟨.single, .done⟩) := rfl

/-- The one request of a command that runs freely. -/
theorem next_proceed (o : Observation) :
    Plan.next { command := .proceed } o = (.request .proceed, ⟨.proceed, .done⟩) := rfl

theorem Ready.proceed_sound {answer : Except DebugError Unit} (h : Ready marks program m s)
    (hfree : m.location?.any s.vm.isPatched = false)
    (hs : s.plan = some { command := .proceed })
    (hdrive : s.drive true (fuel + 1) = some (answer, s')) :
    ∃ rest, m.RestsAt program (fun m => m.location?.any marks = true) rest ∧
      Rested answer s' rest := by
  have hactive : Ready marks program m
      { s with plan := some ⟨.proceed, .done⟩, state := .active } := h.withPlan _ _
  rw [drive_request hs (next_proceed _)] at hdrive
  split at hdrive
  · cases hdrive
  · rename_i error t hserve
    cases hdrive
    exact (hactive.serve_sound hfree hserve).2
  · rename_i t hserve
    obtain ⟨hplan, rest, hrest, hrested⟩ := hactive.serve_sound hfree hserve
    cases fuel with
    | zero => cases hdrive
    | succ fuel =>
      rw [drive_done (hplan rfl) rfl] at hdrive
      cases hdrive
      exact ⟨rest, hrest, hrested.complete⟩

/-- Where the plan of a command ends is where the trace comes to rest. -/
theorem Ready.begin_sound {answer : Except DebugError Unit} (h : Ready marks program m s)
    (hfree : m.location?.any s.vm.isPatched = false) (hs : s.plan = some { command })
    (hdrive : s.drive true fuel = some (answer, s')) :
    ∃ rest, m.RestsAt program (command.Stops marks program m) rest ∧ Rested answer s' rest := by
  obtain ⟨first, hfirst⟩ := Debuggee.location?_eq_some h.halted.frames_ne_nil
  obtain ⟨fuel, rfl⟩ : ∃ n, fuel = n + 1 := by
    cases fuel with
    | zero => cases hdrive
    | succ n => exact ⟨n, rfl⟩
  have hwalk (hcommand : command ≠ .proceed ∧ command ≠ .single) :
      ∃ rest, m.RestsAt program (command.Stops marks program m) rest ∧ Rested answer s' rest := by
    apply h.drive_sound hfree hs (next_begin h.halted.pausedIn hfirst hcommand)
      nofun _ hdrive
    intro next t ht ht' htdrive
    exact ht.drive_sound rfl hfirst hcommand ht' htdrive
  match command with
  | .into => exact hwalk ⟨nofun, nofun⟩
  | .over => exact hwalk ⟨nofun, nofun⟩
  | .out => exact hwalk ⟨nofun, nofun⟩
  | .single =>
    apply h.drive_sound hfree hs (next_single _) nofun _ hdrive
    intro next t ht ht' htdrive
    cases fuel with
    | zero => cases htdrive
    | succ fuel =>
      rw [drive_done ht' rfl] at htdrive
      cases htdrive
      refine ⟨.halted next, .inl ⟨.inr trivial, rfl⟩, rfl, ?_⟩
      rw [vm_complete]
      exact ⟨ht.halted.state, ht.halted.machine⟩
  | .proceed =>
    rw [stops_proceed]
    exact h.proceed_sound hfree hs hdrive

/-- The plan of a command ends if the trace comes to rest. -/
theorem Ready.exists_begin (h : Ready marks program m s)
    (hfree : m.location?.any s.vm.isPatched = false) (hs : s.plan = some { command })
    (hrests : m.RestsAt program (command.Stops marks program m) rest) :
    ∃ fuel, (s.drive true fuel).isSome := by
  obtain ⟨first, hfirst⟩ := Debuggee.location?_eq_some h.halted.frames_ne_nil
  have hwalk (hcommand : command ≠ .proceed ∧ command ≠ .single) :
      ∃ fuel, (s.drive true fuel).isSome := by
    apply h.exists_drive hfree hrests.step_isSome hs (next_begin h.halted.pausedIn hfirst hcommand)
      nofun
    intro next t hmoved ht ht'
    exact ht.exists_drive rfl hfirst hcommand ht' ((Machine.restsAt_of_moved hmoved).mp hrests)
  match command with
  | .into => exact hwalk ⟨nofun, nofun⟩
  | .over => exact hwalk ⟨nofun, nofun⟩
  | .out => exact hwalk ⟨nofun, nofun⟩
  | .single =>
    apply h.exists_drive hfree hrests.step_isSome hs (next_single _) nofun
    intro next t hmoved ht ht'
    exact ⟨1, by rw [drive_done ht' rfl]; rfl⟩
  | .proceed =>
    have hactive : Ready marks program m
        { s with plan := some ⟨.proceed, .done⟩, state := .active } := h.withPlan _ _
    rw [stops_proceed] at hrests
    obtain ⟨fuel, hfuel⟩ := hactive.exists_serve hfree hrests
    obtain ⟨⟨answer, t⟩, hserve⟩ := Option.isSome_iff_exists.mp hfuel
    refine ⟨fuel + 1 + 1, ?_⟩
    rw [drive_request hs (next_proceed _), serve_mono (Nat.le_add_right fuel 1) hserve]
    cases answer with
    | error error => rfl
    | ok value =>
      simp only
      rw [drive_done ((hactive.serve_sound hfree hserve).1 rfl) rfl]
      rfl

theorem start_eq (hpaused : s.vm.isPaused = true) (command : Command) (fuel : Nat) :
    s.start fuel command =
      (({ s with plan := some { command }, state := .starting } : Stepper).drive true fuel).map
        fun (answer, s) =>
          match answer with
          | .ok () => (.ok s.plan.isNone, s)
          | .error error => (.error error, { s with plan := none, state := .completed }) := by
  rw [start]
  exact if_pos hpaused

/-- A command is answered where the trace comes to rest, and says so. -/
theorem Ready.start_sound {answer : Except DebugError Bool} (h : Ready marks program m s)
    (hfree : m.location?.any s.vm.isPatched = false)
    (hstart : s.start fuel command = some (answer, s')) :
    ∃ rest, m.RestsAt program (command.Stops marks program m) rest ∧
      answer = rest.outcome ∧ s'.vm.AtRest rest := by
  rw [start_eq h.halted.isPaused] at hstart
  obtain ⟨⟨driven, t⟩, hdrive, heq⟩ := Option.map_eq_some_iff.mp hstart
  obtain ⟨rest, hrest, hrested⟩ :=
    (h.withPlan (some { command }) .starting).begin_sound hfree rfl hdrive
  refine ⟨rest, hrest, ?_⟩
  match rest with
  | .halted m =>
    obtain ⟨rfl, hat⟩ := hrested
    cases heq
    exact ⟨by rw [plan_of_drive hdrive]; rfl, hat⟩
  | .ended (.returned value) =>
    obtain ⟨rfl, hat⟩ := hrested
    cases heq
    exact ⟨by rw [plan_of_drive hdrive]; rfl, hat⟩
  | .ended (.faulted place fault) =>
    obtain ⟨rfl, hat⟩ := hrested
    cases heq
    exact ⟨rfl, hat⟩

theorem Ready.exists_start (h : Ready marks program m s)
    (hfree : m.location?.any s.vm.isPatched = false)
    (hrests : m.RestsAt program (command.Stops marks program m) rest) :
    ∃ fuel, (s.start fuel command).isSome := by
  obtain ⟨fuel, hfuel⟩ := (h.withPlan (some { command }) .starting).exists_begin hfree rfl hrests
  exact ⟨fuel, by rwa [start_eq h.halted.isPaused, Option.isSome_map]⟩

end Commands

end Stepper

/-- In a session of a stepper without a failed run since the last load, a command given on a location
without a trap comes to rest exactly where the plain trace does that is to stop at the breakpoints of
the loaded program and by the rule of the command: if the trace comes to rest, the command is
answered so within every sufficient bound, and it is answered in no other way. -/
theorem Host.Session.start_stops {s₀ s : Stepper} {program : Program} (hnew : s₀.IsNew)
    (hsession : Session Operation.IsStepping (.stepper s₀) false (.stepper s))
    (hprogram : s.vm.plain? = some program) (hpaused : s.vm.isPaused = true)
    (hfree : s.vm.machine.location?.any s.vm.isPatched = false) (command : Command) :
    (∀ rest, s.vm.machine.RestsAt program
        (command.Stops s.debugger.isBreakpoint program s.vm.machine) rest →
      ∃ s' bound, s'.vm.AtRest rest ∧
        ∀ fuel ≥ bound, s.start fuel command = some (rest.outcome, s')) ∧
    (∀ fuel answer s', s.start fuel command = some (answer, s') →
      ∃ rest, s.vm.machine.RestsAt program
        (command.Stops s.debugger.isBreakpoint program s.vm.machine) rest ∧
          answer = rest.outcome ∧ s'.vm.AtRest rest) := by
  obtain ⟨_, heq, hkept⟩ := hsession.kept hnew
  cases heq
  obtain ⟨program', hhalted⟩ := hkept.sound.haltedIn hpaused
  cases hhalted.plain.symm.trans hprogram
  have hready : Stepper.Ready s.debugger.isBreakpoint program s.vm.machine s :=
    ⟨hhalted, hkept.armed rfl, rfl⟩
  refine ⟨fun rest hrests => ?_, fun fuel answer s' hstart => hready.start_sound hfree hstart⟩
  obtain ⟨bound, hbound⟩ := hready.exists_start hfree hrests
  obtain ⟨⟨answer, s'⟩, hstart⟩ := Option.isSome_iff_exists.mp hbound
  obtain ⟨rest', hrests', rfl, hat⟩ := hready.start_sound hfree hstart
  cases hrests.unique hrests'
  exact ⟨s', bound, hat, fun fuel hle => Stepper.start_mono hle hstart⟩

/-- A call of a sum, halted on a breakpoint on its addition, is moved on to its end by a single
step. -/
theorem Host.Session.start_stops_sum :
    ∃ s s' m, Session Operation.IsStepping (.stepper (.ofDebugger {})) false (.stepper s) ∧
      s.vm.machine.location? = some ⟨0, 2⟩ ∧ m.location? = some ⟨0, 3⟩ ∧ s'.vm.AtRest (.halted m) ∧
      ∃ bound, ∀ fuel ≥ bound, s.start fuel .single = some (.ok true, s') := by
  have hloaded : Session Operation.IsStepping (.stepper (.ofDebugger {})) false
      (.stepper ((Stepper.ofDebugger {}).load .sum)) :=
    .perform .new (show Program.sum.IsPlain ∧ Program.sum.TrapFree by decide)
      (show Host.perform 0 _ (.stepper (.load .sum)) = some _ from rfl)
  have hset := hloaded.perform (by exact trivial)
    (show Host.perform 0 _ (.stepper (.set ⟨0, 2⟩)) = some _ from rfl)
  have hcalled := hset.perform (by exact trivial)
    (show Host.perform 9 _ (.stepper (.call "sum" #[])) = some _ from rfl)
  have hadds : Machine.step Program.sum.unpatched ⟨[⟨0, 2, ⟨#[]⟩, 0⟩], ⟨#[1, 2]⟩⟩ =
      some (.moved ⟨[⟨0, 3, ⟨#[]⟩, 0⟩], ⟨#[3]⟩⟩) := by decide +kernel
  have hstops := (Host.Session.start_stops ⟨⟨rfl, rfl, rfl⟩, rfl, rfl, rfl, rfl⟩ hcalled
    (show _ = some Program.sum.unpatched from rfl) rfl rfl .single).1
  obtain ⟨s', bound, hat, hstart⟩ := hstops _
    ((Machine.restsAt_of_stop hadds (.inr trivial)).mpr rfl)
  exact ⟨_, s', _, hcalled, rfl, rfl, hat, bound, hstart⟩

end BytecodeDebugger
