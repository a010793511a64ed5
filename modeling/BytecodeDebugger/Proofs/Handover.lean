import BytecodeDebugger.Proofs.CallStack
import BytecodeDebugger.Proofs.CommandStops
import BytecodeDebugger.Proofs.KeptBreakpoints

/-!
# Handing a halted call over to a stepper

A debugger takes the trap out where its call is halted, and tells from the patches what to arm
again. A stepper goes by its own note of a breakpoint, which is not set in a stepper that is put
over a debugger. Steps do not need the note, since they arm the location that they leave. A free run
does: as the first command from a breakpoint without a trap, it leaves that breakpoint behind.

## Implementation notes

From then on nothing of the lost breakpoint is known but that it is in the set, so the statement is
about the first command. Whatever it is, the ones after it keep the breakpoints armed that it left
armed.
-/

namespace BytecodeDebugger

/-- Whether a location is a breakpoint of the loaded program whose trap was taken out. -/
def Debugger.isFreed (d : Debugger) (place : Location) : Bool :=
  d.isBreakpoint place && !d.vm.isPatched place

namespace Stepper

variable {s s' : Stepper} {d : Debugger} {program : Program} {m : Machine} {fuel : Nat}
  {command : Command} {place : Location}

/-! ## Commands that begin by a step -/

/-- A step leaves a stepper armed, whether or not the halt that it starts from is noted. -/
theorem armedAfter_serve_step {answer : Except DebugError Unit} (hcovered : s.debugger.Covered)
    (harmed : s.debugger.Armed) (h : s.serve fuel .step = some (answer, s')) :
    s'.ArmedAfter (failedAt? answer) := by
  simp only [serve, beq_self_eq_true, Bool.or_true, if_true] at h
  split at h
  · cases h
  · rename_i error t hresume
    cases h
    exact armedAfter_of_error (s := s.setStepping true) hcovered harmed (fun _ _ _ => rfl) hresume
  · rename_i halted t hresume
    have hpaused : (s.setStepping true).vm.isPaused = true := isPaused_of_resume hresume
    have hstepped := stepped_rearm hpaused (resumed_resume hresume)
    have hrearmed := armed_of_stepped (s := s.setStepping true) hcovered harmed hstepped
    split at h <;> cases h <;> exact hrearmed

/-- Every command but a free run begins by a step. -/
theorem exists_next_step (hs : s.vm.HaltedIn program m) (hcommand : command ≠ .proceed) :
    ∃ plan, Plan.next { command } s.observe = (.request .step, plan) := by
  obtain ⟨first, hfirst⟩ := Debuggee.location?_eq_some hs.frames_ne_nil
  match command with
  | .proceed => exact absurd rfl hcommand
  | .single => exact ⟨_, next_single _⟩
  | .into => exact ⟨_, next_begin hs.pausedIn hfirst ⟨nofun, nofun⟩⟩
  | .over => exact ⟨_, next_begin hs.pausedIn hfirst ⟨nofun, nofun⟩⟩
  | .out => exact ⟨_, next_begin hs.pausedIn hfirst ⟨nofun, nofun⟩⟩

theorem armedAfter_start_of_ne_proceed {answer : Except DebugError Bool}
    (hs : s.vm.HaltedIn program m) (hcovered : s.debugger.Covered) (harmed : s.debugger.Armed)
    (hcommand : command ≠ .proceed) (h : s.start fuel command = some (answer, s')) :
    s'.ArmedAfter (failedAt? answer) := by
  rw [start_eq hs.isPaused] at h
  obtain ⟨⟨driven, t⟩, hdrive, heq⟩ := Option.map_eq_some_iff.mp h
  have ht : t.ArmedAfter (failedAt? driven) := by
    let starting : Stepper := { s with plan := some { command }, state := .starting }
    obtain ⟨plan, hnext⟩ := exists_next_step (s := starting) hs hcommand
    let active : Stepper := { s with plan := some plan, state := .active }
    cases fuel with
    | zero => cases hdrive
    | succ fuel =>
      rw [drive_request rfl hnext] at hdrive
      split at hdrive
      · cases hdrive
      · rename_i error u hserve
        cases hdrive
        exact armedAfter_serve_step (s := active) hcovered harmed hserve
      · rename_i u hserve
        have hu : u.Armed := armedAfter_serve_step (s := active) hcovered harmed hserve
        exact hu.drive hdrive
  cases driven with
  | ok value =>
    cases heq
    exact ht
  | error error =>
    cases heq
    exact ht.withPlan none .completed

/-! ## A free run -/

/-- Where every breakpoint is patched, a stepper without a note is armed. -/
theorem armed_ofDebugger (hcovered : d.Covered) (harmed : d.Armed)
    (hkept : d.vm.haltedAt?.any d.isFreed = false) : (ofDebugger d).Armed := by
  refine ⟨hcovered, fun place hplace hfree => ?_⟩
  have hset : d.isBreakpoint place = true := hplace
  have hpatched : d.vm.isPatched place = false := hfree
  have hat : d.vm.haltedAt? = some place := harmed place hset hpatched
  rw [hat, Option.any_some, Debugger.isFreed, hset, hpatched] at hkept
  cases hkept

/-- A free run from a location without a trap comes to rest somewhere else, and no trap is put
there. -/
theorem left_of_runFreely (hs : s.vm.HaltedIn program m) (hplace : m.location? = some place)
    (hfree : s.vm.isPatched place = false) (h : s.runFreely fuel .proceed = some (.ok (), s')) :
    s'.vm.isPatched place = false ∧ s'.vm.haltedAt? ≠ some place := by
  have hresumed := (resumed_runFreely h).debugger
  constructor
  · have hpatched : s'.vm.isPatched place =
        (s.vm.isPatched place && decide (s'.vm.haltedAt? ≠ some place)) := hresumed.isPatched place
    rw [hpatched, hfree, Bool.false_and]
  · obtain ⟨rest, -, hat, ⟨hstop, -⟩ | ⟨-, hrests⟩⟩ := runFreely_rests hs h
    · rw [hplace, Option.any_some, hfree] at hstop
      cases hstop
    · cases rest with
      | halted last =>
        obtain ⟨k, -, hstop, -⟩ := hrests
        rw [hat.haltedAt?]
        intro hlast
        rw [hlast, Option.any_some, hfree] at hstop
        cases hstop
      | ended ending =>
        have hover : s'.vm.isPaused = false := by
          rw [Debuggee.isPaused, hat.1]
          rfl
        rw [Debuggee.haltedAt?_of_not_isPaused hover]
        exact (Option.some_ne_none place).symm

/-- A free run without a note leaves a breakpoint without a trap behind. -/
theorem not_armed_of_proceed {answer : Except DebugError Bool} (hs : s.vm.HaltedIn program m)
    (hnote : s.onBreakpoint = false) (hlost : s.vm.haltedAt?.any s.debugger.isFreed = true)
    (h : s.start fuel .proceed = some (answer, s')) (hfine : failedAt? answer = none) :
    ¬s'.debugger.Armed := by
  obtain ⟨place, hplace, hfreed⟩ := (Option.any_eq_true _ _).mp hlost
  rw [hs.haltedAt?] at hplace
  obtain ⟨hset, hfree⟩ := Bool.and_eq_true_iff.mp hfreed
  have hfree : s.debugger.vm.isPatched place = false := by simpa using hfree
  rw [start_eq hs.isPaused] at h
  obtain ⟨⟨driven, t⟩, hdrive, heq⟩ := Option.map_eq_some_iff.mp h
  let active : Stepper := { s with plan := some ⟨.proceed, .done⟩, state := .active }
  cases fuel with
  | zero => cases hdrive
  | succ fuel =>
    rw [drive_request rfl (next_proceed _)] at hdrive
    rw [serve_of_not_onBreakpoint (s := active) hnote] at hdrive
    split at hdrive
    · cases hdrive
    · rename_i error u hrun
      cases hdrive
      cases heq
      -- the only error of a run is a failure
      obtain ⟨rest, hanswer, -⟩ := runFreely_rests (s := active) hs hrun
      match rest with
      | .halted last => cases hanswer
      | .ended (.returned value) => cases hanswer
      | .ended (.faulted last fault) =>
        cases hanswer
        cases hfine
    · rename_i u hrun
      obtain ⟨hpatched, hat⟩ := left_of_runFreely (s := active) hs hplace hfree hrun
      have hresumed := (resumed_runFreely hrun).debugger
      have hu : u.debugger.isBreakpoint place = true :=
        (hresumed.isBreakpoint place).trans hset
      cases fuel with
      | zero => cases hdrive
      | succ fuel =>
        have hplan : u.plan = some ⟨.proceed, .done⟩ := (resumed_runFreely hrun).plan
        rw [drive_done hplan rfl] at hdrive
        cases hdrive
        cases heq
        intro harmed
        rw [debugger_complete] at harmed
        exact hat (harmed place hu hpatched)

end Stepper

/-! ## Sessions -/

/-- The stepping commands of a stepper. -/
def Operation.IsCommand : Operation → Prop
  | .stepper (.start _) => True
  | _ => False

namespace Host

variable {start host : Host} {failed : Bool}

/-- A session at one level is a session. -/
theorem LevelSession.session (h : LevelSession start failed host) :
    Session (fun _ => True) start failed host := by
  induction h with
  | new => exact .new
  | perform before hpermits h ih => exact ih.perform trivial h

/-- What is permitted at one level puts no trap where there is no breakpoint. -/
theorem keepsToBreakpoints_of_permits {operation : Operation} (h : host.Permits operation) :
    operation.KeepsToBreakpoints := by
  cases host with
  | debuggee vm => exact h.elim
  | debugger d =>
    cases operation with
    | debugger operation =>
      cases operation with
      | load program => exact h
      | patch place => exact h
      | _ => exact trivial
    | _ => exact h.elim
  | stepper s =>
    cases operation with
    | stepper operation => cases operation <;> exact h
    | debugger operation =>
      cases operation with
      | patch place => exact h
      | load program => exact h.elim
      | _ => exact trivial
    | _ => exact h.elim

theorem LevelSession.covered {d₀ : Debugger} (hnew : d₀.IsNew)
    (h : LevelSession (.debugger d₀) failed host) : host.Covered := by
  induction h with
  | new => exact ⟨d₀, rfl, hnew.covered⟩
  | perform before hpermits h ih => exact ih.perform (keepsToBreakpoints_of_permits hpermits) h

/-- A call that is halted at the end of a session is a call of the loaded program. -/
theorem LevelSession.isSound {d₀ d : Debugger} (hnew : d₀.IsNew)
    (h : LevelSession (.debugger d₀) failed (.debugger d))
    (hfree : ∀ program, d.vm.plain? = some program → program.TrapFree) : d.vm.IsSound := by
  have hstart : (Host.debugger d₀).vm = {} := hnew.vm
  have hconsistent : d.vm.Consistent := h.session.consistent hstart
  refine ⟨hfree, fun hpaused => ?_⟩
  have hframes := hconsistent.paused_iff.mp hpaused
  obtain ⟨program, hprogram, -⟩ := hconsistent.nested hframes
  rw [Debuggee.plain?, hprogram]
  exact ⟨rfl, hframes⟩

/-- Commands that do not fail keep a stepper armed. -/
theorem Session.armed_of_commands {s : Stepper} (hs : s.Armed) (hplan : s.plan = none)
    (h : Session Operation.IsCommand (.stepper s) failed host) (hfine : failed = false) :
    ∃ t, host = .stepper t ∧ t.Armed ∧ t.plan = none := by
  induction h with
  | new => exact ⟨s, rfl, hs, hplan⟩
  | @perform failed host host' fuel operation reply before hcommand h ih =>
    cases operation with
    | stepper operation =>
      cases operation with
      | start command =>
        obtain ⟨hbefore, hreply⟩ := Bool.or_eq_false_iff.mp hfine
        obtain ⟨t, rfl, ht, htplan⟩ := ih hbefore
        obtain ⟨⟨reply, t'⟩, hperform, heq⟩ := Option.map_eq_some_iff.mp h
        cases heq
        refine ⟨t', rfl, ?_, Stepper.plan_perform (fun _ => htplan) hperform⟩
        have hafter := Stepper.armedAfter_perform (fun _ => ⟨htplan, ht⟩)
          (fun _ hload => by cases hload) hperform
        rw [Reply.isFault_eq, Option.isSome_eq_false_iff, Option.isNone_iff_eq_none] at hreply
        rwa [hreply] at hafter
      | _ => exact hcommand.elim
    | _ => exact hcommand.elim

/-- A debugger that is used at its own level, with a halted call of a program without traps of its
own, is handed over to a stepper. If the first command does not fail, it and all commands after it
that do not fail keep the breakpoints armed, unless the first one is a free run from a breakpoint
whose trap was taken out. -/
theorem LevelSession.handover_armed_iff {d₀ d : Debugger} {s : Stepper} {fuel : Nat}
    {command : Command} {answer : Except DebugError Bool} (hnew : d₀.IsNew)
    (hsession : LevelSession (.debugger d₀) false (.debugger d)) (hpaused : d.vm.isPaused = true)
    (hfree : ∀ program, d.vm.plain? = some program → program.TrapFree)
    (h : (Stepper.ofDebugger d).start fuel command = some (answer, s))
    (hfine : failedAt? answer = none) :
    (Stepper.ofDebugger d).debugger.Armed ∧
      ((∀ host, Session Operation.IsCommand (.stepper s) false host →
          ∃ t, host = .stepper t ∧ t.debugger.Armed) ↔
        ¬(command = .proceed ∧ d.vm.haltedAt?.any d.isFreed = true)) := by
  have harmed : d.Armed := by
    have hsettled : d.Settled none :=
      hsession.settled (show (Host.debugger d₀).IsNew from hnew) rfl
    exact hsettled.armed
  obtain ⟨_, hdebugger, hcovered⟩ := hsession.covered hnew
  cases hdebugger
  obtain ⟨program, hhalted⟩ := (hsession.isSound hnew hfree).haltedIn hpaused
  refine ⟨harmed, ?_, ?_⟩
  · rintro hall ⟨rfl, hlost⟩
    obtain ⟨t, heq, ht⟩ := hall _ .new
    cases heq
    exact Stepper.not_armed_of_proceed (s := .ofDebugger d) hhalted rfl hlost h hfine ht
  · intro hkept host hcommands
    have hs : s.ArmedAfter (failedAt? answer) := by
      by_cases hcommand : command = .proceed
      · have hpatched : d.vm.haltedAt?.any d.isFreed = false := by
          rw [← Bool.not_eq_true]
          exact fun hlost => hkept ⟨hcommand, hlost⟩
        exact (Stepper.armed_ofDebugger hcovered harmed hpatched).start h
      · exact Stepper.armedAfter_start_of_ne_proceed (s := .ofDebugger d) hhalted hcovered harmed
          hcommand h
    rw [hfine] at hs
    obtain ⟨t, rfl, ht, -⟩ := hcommands.armed_of_commands hs (Stepper.plan_start rfl h) rfl
    exact ⟨t, rfl, ht.debugger⟩

/-- A step from a breakpoint whose trap was taken out is no free run, so what comes after it keeps
the breakpoints armed. -/
theorem LevelSession.handover_armed_iff_single :
    Debugger.onSecond.vm.haltedAt?.any Debugger.onSecond.isFreed = true ∧
      ∃ s, (Stepper.ofDebugger .onSecond).start 9 .single = some (.ok true, s) ∧
        ∀ host, Session Operation.IsCommand (.stepper s) false host →
          ∃ t, host = .stepper t ∧ t.debugger.Armed := by
  have hplain : ∀ program, Debugger.onSecond.vm.plain? = some program → program.TrapFree := by
    intro program hprogram
    have hsum : Debugger.onSecond.vm.plain? = some .sum := by decide +kernel
    cases hsum.symm.trans hprogram
    decide
  refine ⟨by decide +kernel, _, rfl, ?_⟩
  have hkept := LevelSession.handover_armed_iff ⟨rfl, rfl, rfl⟩ .onSecond (by decide +kernel) hplain
    (show (Stepper.ofDebugger .onSecond).start 9 .single = some (.ok true, _) from rfl) rfl
  apply hkept.2.mpr
  rintro ⟨hproceed, -⟩
  cases hproceed

/-- A free run from the same place returns from the call, and its breakpoint, which is in the set
and within range, is left without a trap. -/
theorem LevelSession.not_armed_onSecond :
    LevelSession (.debugger {}) false (.debugger .onSecond) ∧
      Debugger.onSecond.vm.plain? = some .sum ∧ Program.sum.TrapFree ∧
      Debugger.onSecond.vm.isPaused = true ∧
      ∃ s, (Stepper.ofDebugger .onSecond).start 9 .proceed = some (.ok true, s) ∧
        s.vm.isPaused = false ∧ s.debugger.isBreakpoint ⟨0, 2⟩ = true ∧
        s.vm.isPatched ⟨0, 2⟩ = false := by
  refine ⟨.onSecond, by decide +kernel, by decide, by decide +kernel, _, rfl, ?_, ?_, ?_⟩
  · decide +kernel
  · decide +kernel
  · decide +kernel

end Host

end BytecodeDebugger
