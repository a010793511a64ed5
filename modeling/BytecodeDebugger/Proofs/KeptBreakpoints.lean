import BytecodeDebugger.Proofs.Armed
import BytecodeDebugger.Proofs.ArmedCommands

/-!
# No breakpoint is lost

A debugger, or a stepper, that is used at its own level and loads programs without patches keeps
every breakpoint within range patched, as long as no run fails. While a call is halted, the
breakpoint at its location may be taken out.

## Implementation notes

What may be asked of a host depends on its state, since an instruction may be restored where the call
is halted and nowhere else. So these sessions have an inductive of their own. The programs may
contain traps as they were written.
-/

namespace BytecodeDebugger

namespace Host

/-- A debugger or a stepper over a debuggee, all of which were just made. -/
def IsNew : Host → Prop
  | .debuggee _ => False
  | .debugger d => d.IsNew
  | .stepper s => s.IsNew

/-- The operations by which a host is used at its own level: those of a debugger that leave the traps
to it, or those of a stepper and, of the debugger within, setting and removing breakpoints by source
line. Programs are loaded without patches. -/
def Permits : Host → Operation → Prop
  | .debugger d, .debugger operation => d.Permits operation
  | .stepper _, .stepper (.load program) => program.IsPlain
  | .stepper _, .stepper _ => True
  | .stepper _, .debugger (.setLine _) => True
  | .stepper _, .debugger (.removeLine _) => True
  | _, _ => False

/-- The hosts that a session at one level can come to. The flag says whether a run has failed since
the last load. -/
inductive LevelSession (start : Host) : Bool → Host → Prop
  | new : LevelSession start false start
  | perform {failed : Bool} {host host' : Host} {fuel : Nat} {operation : Operation} {reply : Reply}
      (before : LevelSession start failed host) (hpermits : host.Permits operation)
      (h : host.perform fuel operation = some (reply, host')) :
      LevelSession start (!operation.loads && (failed || reply.isFault)) host'

/-- How a host stands after an operation that failed at a location, or did not fail. -/
def Settled (failedAt : Option Location) : Host → Prop
  | .debuggee _ => False
  | .debugger d => d.Settled failedAt
  | .stepper s => s.plan = none ∧ s.ArmedAfter failedAt

variable {start host host' : Host} {fuel : Nat} {operation : Operation} {reply : Reply}

theorem IsNew.settled (h : start.IsNew) : start.Settled none := by
  cases start with
  | debuggee vm => exact h.elim
  | debugger d =>
    have hvm : d.vm = {} := Debugger.IsNew.vm h
    refine ⟨?_, fun place hplace => ?_⟩
    · rw [hvm]
      exact fun _ => rfl
    · rw [Debugger.isBreakpoint_of_program_eq_none (by rw [hvm])] at hplace
      cases hplace
  | stepper s =>
    have hkept := Stepper.IsNew.kept h
    exact ⟨hkept.plan, hkept.armed rfl⟩

/-- What every operation that is permitted leaves behind. Loading needs nothing from before. -/
theorem settled_perform (hhost : operation.loads = false → host.Settled none)
    (hpermits : host.Permits operation)
    (h : host.perform fuel operation = some (reply, host')) : host'.Settled reply.failedAt? := by
  cases host with
  | debuggee vm => cases operation <;> exact hpermits.elim
  | debugger d =>
    cases operation with
    | debugger operation =>
      obtain ⟨⟨answer, e⟩, hperform, heq⟩ := Option.map_eq_some_iff.mp h
      cases heq
      exact Debugger.settled_perform hhost hpermits hperform
    | _ => exact hpermits.elim
  | stepper s =>
    cases operation with
    | stepper operation =>
      obtain ⟨⟨answer, t⟩, hperform, heq⟩ := Option.map_eq_some_iff.mp h
      cases heq
      have hplain (program : Program) (hload : operation = .load program) : program.IsPlain := by
        subst hload
        exact hpermits
      refine ⟨Stepper.plan_perform (fun hloads => (hhost hloads).1) hperform, ?_⟩
      exact Stepper.armedAfter_perform hhost hplain hperform
    | debugger operation =>
      obtain ⟨⟨answer, e⟩, hperform, heq⟩ := Option.map_eq_some_iff.mp h
      cases heq
      cases operation with
      | setLine line =>
        cases hperform
        exact ⟨(hhost rfl).1, Stepper.Armed.setLine (hhost rfl).2 line⟩
      | removeLine line =>
        cases hperform
        exact ⟨(hhost rfl).1, Stepper.Armed.removeLine (hhost rfl).2 line⟩
      | _ => exact hpermits.elim
    | _ => exact hpermits.elim

/-- Loading a program does not fail. -/
theorem failedAt?_of_loads (hloads : operation.loads = true)
    (h : host.perform fuel operation = some (reply, host')) : reply.failedAt? = none := by
  cases performed_of_perform h with
  | vm hperform =>
    rename_i operation vm
    cases operation <;> cases hloads
    cases hperform
    rfl
  | debugger hperform =>
    rename_i operation
    cases operation <;> cases hloads
    cases hperform
    rfl
  | within hperform =>
    rename_i operation
    cases operation <;> cases hloads
    cases hperform
    rfl
  | stepper hperform =>
    rename_i operation
    cases operation <;> cases hloads
    cases hperform
    rfl
  | wrap => rfl
  | unwrap d => rfl
  | unavailable => rfl

/-- The run lemma: between the operations of a session in which no run has failed since the last
load, the host is settled. -/
theorem LevelSession.settled {failed : Bool} (hnew : start.IsNew)
    (hsession : LevelSession start failed host) (hfine : failed = false) : host.Settled none := by
  induction hsession with
  | new => exact hnew.settled
  | @perform failed host host' fuel operation reply before hpermits h ih =>
    cases hloads : operation.loads with
    | true =>
      have hafter := settled_perform (fun hnone => by cases hloads.symm.trans hnone) hpermits h
      rwa [failedAt?_of_loads hloads h] at hafter
    | false =>
      rw [hloads, Bool.not_false, Bool.true_and, Bool.or_eq_false_iff, Reply.isFault_eq,
        Option.isSome_eq_false_iff, Option.isNone_iff_eq_none] at hfine
      have hafter := settled_perform (fun _ => ih hfine.1) hpermits h
      rwa [hfine.2] at hafter

theorem Settled.armedAfter {failedAt : Option Location} (h : host.Settled failedAt) :
    ∃ d, host.debugger? = some d ∧ d.vm = host.vm ∧ d.ArmedAfter failedAt := by
  cases host with
  | debuggee vm => exact h.elim
  | debugger d => exact ⟨d, rfl, rfl, Debugger.Settled.armed h⟩
  | stepper s => exact ⟨s.debugger, rfl, rfl, Stepper.ArmedAfter.debugger h.2⟩

/-- In every session at one level, over a new debugger or a new stepper, in which no run has failed
since the last load: without a halted call every breakpoint of the loaded program is patched, and
with a halted call every one but perhaps the one at the location of its innermost frame. -/
theorem LevelSession.no_lost_breakpoint (hnew : start.IsNew)
    (hsession : LevelSession start false host) :
    ∃ d, host.debugger? = some d ∧ ∀ place, d.hasBreakpoint place = true →
      host.vm.hasAddress place = true →
      (host.vm.isPaused = false → host.vm.isPatched place = true) ∧
      (host.vm.isPaused = true →
        host.vm.isPatched place = true ∨ host.vm.machine.location? = some place) := by
  obtain ⟨d, hdebugger, hvm, harmed⟩ := (hsession.settled hnew rfl).armedAfter
  refine ⟨d, hdebugger, fun place hset haddress => ?_⟩
  have hplace : d.isBreakpoint place = true := by
    rw [Debugger.isBreakpoint, hset, hvm, haddress]
    rfl
  rw [← hvm]
  constructor
  · intro hover
    exact Debugger.Armed.isPatched harmed hover hplace
  · intro hpaused
    cases hpatched : d.vm.isPatched place with
    | true => exact .inl rfl
    | false => exact .inr (Debuggee.isPaused_of_haltedAt? (harmed place hplace hpatched)).2

end Host

/-- A debugger whose call of a sum was continued from one breakpoint to the next. -/
def Debugger.onSecond : Debugger :=
  let d := ((({} : Debugger).load .sum).2.set ⟨0, 1⟩).set ⟨0, 2⟩
  match (d.call 9 "sum" #[]).bind fun (_, d) => d.proceed 9 with
  | some (_, d) => d
  | none => d

theorem Host.LevelSession.onSecond :
    LevelSession (.debugger {}) false (.debugger .onSecond) := by
  have hloaded : LevelSession (.debugger {}) false (.debugger (({} : Debugger).load .sum).2) :=
    LevelSession.new.perform
      (show (Host.debugger {}).Permits (.debugger (.load .sum)) from
        show Program.sum.IsPlain by decide)
      (show Host.perform 0 _ (.debugger (.load .sum)) = some _ from rfl)
  have hfirst := hloaded.perform (by exact trivial)
    (show Host.perform 0 _ (.debugger (.set ⟨0, 1⟩)) = some _ from rfl)
  have hsecond := hfirst.perform (by exact trivial)
    (show Host.perform 0 _ (.debugger (.set ⟨0, 2⟩)) = some _ from rfl)
  have hcalled := hsecond.perform (by exact trivial)
    (show Host.perform 9 _ (.debugger (.call "sum" #[])) = some (.stopped .paused, _) from rfl)
  exact hcalled.perform (by exact trivial)
    (show Host.perform 9 _ (.debugger .proceed) =
      some (.stepped (.paused ⟨⟨0⟩, 0, 2⟩ true), .debugger .onSecond) from rfl)

/-- On the second breakpoint, which is taken out, the first one is patched again. -/
theorem Host.LevelSession.no_lost_breakpoint_sum :
    Debugger.onSecond.vm.haltedAt? = some ⟨0, 2⟩ ∧
      Debugger.onSecond.vm.isPatched ⟨0, 2⟩ = false ∧
      Debugger.onSecond.hasBreakpoint ⟨0, 1⟩ = true ∧
      Debugger.onSecond.vm.isPatched ⟨0, 1⟩ = true := by
  have hset : Debugger.onSecond.hasBreakpoint ⟨0, 1⟩ = true := by decide +kernel
  refine ⟨by decide +kernel, by decide +kernel, hset, ?_⟩
  obtain ⟨d, hdebugger, hkept⟩ := no_lost_breakpoint
    (show (Host.debugger {}).IsNew from ⟨rfl, rfl, rfl⟩) .onSecond
  cases hdebugger
  obtain ⟨-, hhalted⟩ := hkept ⟨0, 1⟩ hset
    (show Debugger.onSecond.vm.hasAddress ⟨0, 1⟩ = true by decide +kernel)
  obtain hpatched | hat := hhalted (show Debugger.onSecond.vm.isPaused = true by decide +kernel)
  · exact hpatched
  · exact absurd hat
      (show Debugger.onSecond.vm.machine.location? ≠ some ⟨0, 1⟩ by decide +kernel)

end BytecodeDebugger
