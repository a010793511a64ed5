import BytecodeDebugger.Proofs.Following
import BytecodeDebugger.Proofs.KeptBreakpoints

/-!
# What a failed run costs

A stepping command takes the breakpoint out of the instruction that it starts from, and patches it
again after that instruction was executed. If the instruction fails, the command ends before. So a
command that fails leaves every breakpoint of the loaded program patched but the one at the
instruction that failed, and the next call halts at each of the others that it comes to.
-/

namespace BytecodeDebugger

/-! ## Calls that come to a trap -/

namespace Machine

variable {p : Program} {m mid : Machine} {k fuel : Nat}

/-- A run whose plain trace comes to a patched location is trapped there or before. The induction
is on the way to that location. -/
theorem exists_run_trapped (hfuel : k < fuel) (hmid : m.after p.unpatched k = some mid)
    (hpatch : mid.onPatch p = true) :
    ∃ j last, j ≤ k ∧ m.after p.unpatched j = some last ∧ last.onPatch p = true ∧
      m.run p fuel = some (.trapped last) := by
  induction k generalizing m fuel with
  | zero =>
    obtain ⟨fuel, rfl⟩ : ∃ n, fuel = n + 1 := ⟨fuel - 1, by omega⟩
    cases hmid
    exact ⟨0, mid, Nat.le_refl 0, rfl, hpatch, by rw [run, step_eq, if_pos hpatch]⟩
  | succ k ih =>
    obtain ⟨fuel, rfl⟩ : ∃ n, fuel = n + 1 := ⟨fuel - 1, by omega⟩
    by_cases hhere : m.onPatch p = true
    · exact ⟨0, m, Nat.zero_le _, rfl, hhere, by rw [run, step_eq, if_pos hhere]⟩
    · rw [after] at hmid
      split at hmid
      · rename_i next hmoved
        obtain ⟨j, last, hle, hlast, hlastpatch, hrun⟩ := ih (Nat.lt_of_succ_lt_succ hfuel) hmid
        refine ⟨j + 1, last, by omega, (after_succ_of_moved j hmoved).trans hlast, hlastpatch, ?_⟩
        rw [run, step_eq, if_neg hhere, hmoved]
        exact hrun
      · cases hmid

/-- One instruction on the way to a patched location is trapped or moves on. -/
theorem exists_step_halted (hmid : m.after p.unpatched k = some mid)
    (hpatch : mid.onPatch p = true) :
    ∃ j last, j ≤ k ∧ m.after p.unpatched j = some last ∧
      (m.step p = some (.moved last) ∨ m.step p = some (.trapped last)) := by
  rw [step_eq]
  by_cases hhere : m.onPatch p = true
  · exact ⟨0, m, Nat.zero_le k, rfl, .inr (if_pos hhere)⟩
  · cases k with
    | zero =>
      cases hmid
      exact absurd hpatch hhere
    | succ k =>
      rw [after] at hmid
      split at hmid
      · rename_i next hmoved
        refine ⟨1, next, by omega, after_succ_of_moved 0 hmoved, .inl ?_⟩
        rw [if_neg hhere, hmoved]
      · cases hmid

end Machine

namespace Debuggee

/-- The debuggee is halted in the plain trace from `start`, after at most `k` instructions. If it is
not after `k`, then `stopped` holds of where it is. -/
def HaltsWithin (program : Program) (start : Machine) (k : Nat) (stopped : Machine → Prop)
    (vm : Debuggee) : Prop :=
  vm.isPaused = true ∧
    ∃ j ≤ k, start.after program j = some vm.machine ∧ (j < k → stopped vm.machine)

variable {vm : Debuggee} {p : Program} {name : String} {function k fuel : Nat}
  {args : Array Int32} {mid : Machine} {place : Location}

theorem HaltsWithin.of_sameCall {vm' : Debuggee} {start : Machine} {stopped : Machine → Prop}
    (hsame : SameCall vm vm') (h : vm.HaltsWithin p start k stopped) :
    vm'.HaltsWithin p start k stopped := by
  rw [HaltsWithin, hsame.isPaused, hsame.machine]
  exact h

/-- A call whose plain trace comes to a patched location halts there, or before at another one, or
after one instruction in stepping mode. -/
theorem exists_call_halted (hp : vm.program = some p) (hidle : vm.isPaused = false)
    (hname : p.lookup? name = some function) (hroutine : (p.routine? function).isSome)
    (hmid : (Machine.start function args).after p.unpatched k = some mid)
    (hplace : mid.location? = some place) (hpatched : vm.isPatched place = true)
    (hfuel : k < fuel) :
    ∃ vm', vm.call fuel name args = some (.ok .paused, vm') ∧
      vm'.HaltsWithin p.unpatched (Machine.start function args) k fun m =>
        vm.stepping = true ∨ m.location?.any vm.isPatched = true := by
  let begun : Debuggee := { vm with machine := Machine.start function args }
  have hprogram : begun.program = some p := hp
  have hpatch : mid.onPatch p = true := by rwa [onPatch_eq hp, hplace, Option.any_some]
  have hrest : ∃ t j last, (if begun.stepping then begun.machine.step p
        else begun.machine.run p fuel) = some t ∧ (t = .moved last ∨ t = .trapped last) ∧
      j ≤ k ∧ begun.machine.after p.unpatched j = some last ∧
      (j < k → vm.stepping = true ∨ last.onPatch p = true) := by
    by_cases hstepping : vm.stepping = true
    · obtain ⟨j, last, hle, hlast, hstep⟩ := Machine.exists_step_halted hmid hpatch
      rcases hstep with hstep | hstep
      · exact ⟨_, j, last, (if_pos hstepping).trans hstep, .inl rfl, hle, hlast,
          fun _ => .inl hstepping⟩
      · exact ⟨_, j, last, (if_pos hstepping).trans hstep, .inr rfl, hle, hlast,
          fun _ => .inl hstepping⟩
    · obtain ⟨j, last, hle, hlast, hlastpatch, hrun⟩ :=
        Machine.exists_run_trapped hfuel hmid hpatch
      exact ⟨_, j, last, (if_neg hstepping).trans hrun, .inr rfl, hle, hlast,
        fun _ => .inr hlastpatch⟩
  obtain ⟨t, j, last, ht, hhalted, hle, hlast, hwhy⟩ := hrest
  have hframes : last.frames ≠ [] :=
    Machine.frames_ne_nil_of_after (List.cons_ne_nil _ _) hlast
  obtain ⟨hanswer, hstate, hmachine⟩ := begun.served_halted hhalted hframes
  refine ⟨(begun.served t).2, ?_, ?_, j, hle, ?_, ?_⟩
  · rw [call_eq args hp hidle hname hroutine, run_eq hprogram, ht, Option.map_some, ← hanswer]
  · rw [isPaused, hstate]
    rfl
  · rw [hmachine]
    exact hlast
  · intro hlt
    rw [hmachine, ← onPatch_eq hp]
    exact hwhy hlt

end Debuggee

namespace Host

variable {start host host' : Host} {fuel : Nat} {operation : Operation} {reply : Reply}
  {name : String} {args : Array Int32} {place other : Location}

/-- The call of a routine at the level of a host. -/
def callAt (host : Host) (name : String) (args : Array Int32) : Operation :=
  match host with
  | .debuggee _ => .vm (.call name args)
  | .debugger _ => .debugger (.call name args)
  | .stepper _ => .stepper (.call name args)

/-- A call of the debuggee that halts is reported as such at every level. -/
theorem perform_callAt {vm : Debuggee} (hplan : ∀ s, host = .stepper s → s.plan = none)
    (hfuel : 0 < fuel) (h : host.vm.call fuel name args = some (.ok .paused, vm)) :
    ∃ host', host.perform fuel (host.callAt name args) = some (.stopped .paused, host') ∧
      Debuggee.SameCall vm host'.vm := by
  cases host with
  | debuggee before =>
    have hcall : before.call fuel name args = some (.ok .paused, vm) := h
    refine ⟨.debuggee vm, ?_, .refl vm⟩
    simp only [perform, callAt, Host.vm, Debuggee.perform, hcall]
    rfl
  | debugger d =>
    have hcall : d.vm.call fuel name args = some (.ok .paused, vm) := h
    have hsome : (d.call fuel name args).isSome := by
      rw [Debugger.call, Option.isSome_map]
      exact Option.isSome_of_eq_some hcall
    obtain ⟨⟨answer, e⟩, hcalled⟩ := Option.isSome_iff_exists.mp hsome
    obtain ⟨-, ⟨error, rfl, hrun⟩ | ⟨stop, rfl, hrun⟩⟩ := Debugger.call_cases hcalled
    · cases hcall.symm.trans hrun
    · cases hcall.symm.trans hrun
      refine ⟨.debugger e, ?_, .refl e.vm⟩
      simp only [perform, callAt, Debugger.perform, hcalled]
      rfl
  | stepper s =>
    have hcall : s.vm.call fuel name args = some (.ok .paused, vm) := h
    obtain ⟨-, error, herror⟩ | ⟨-, hsame, ⟨-, place, hplace⟩ | ⟨hanswer, -⟩⟩ :=
      Debuggee.call_rest hcall
    · cases herror
    · have hnone : (s.withVm vm).noteBreak.plan = none :=
        (Stepper.resumed_noteBreak hsame hplace).plan.trans (hplan s rfl)
      obtain ⟨fuel, rfl⟩ : ∃ n, fuel = n + 1 := ⟨fuel - 1, by omega⟩
      let t := (s.withVm vm).noteBreak
      refine ⟨.stepper (t.complete false t.observe.frame), ?_, ?_⟩
      · simp only [perform, callAt, Stepper.perform, Stepper.call, hcall,
          Stepper.drive_succ_of_plan_eq_none hnone]
        rfl
      · rw [Host.vm, Stepper.debugger_complete]
        exact (s.withVm vm).sameCall_noteBreak
    · exact absurd rfl hanswer

/-- Whatever is called at the level of the host, a call whose plain trace comes to a location halts
there, or before at another trap, or after one instruction in stepping mode. -/
def HaltsAt (host : Host) (place : Location) : Prop :=
  ∀ program name args function k mid fuel, host.vm.plain? = some program →
    program.lookup? name = some function → (program.routine? function).isSome →
    (Machine.start function args).after program k = some mid → mid.location? = some place →
    k < fuel →
    ∃ host', host.perform fuel (host.callAt name args) = some (.stopped .paused, host') ∧
      host'.vm.HaltsWithin program (Machine.start function args) k fun m =>
        host.vm.stepping = true ∨ m.location?.any host.vm.isPatched = true

/-- Without a halted call, calls halt at a patched location. -/
theorem haltsAt_of_isPatched (hplan : ∀ s, host = .stepper s → s.plan = none)
    (hidle : host.vm.isPaused = false) (hpatched : host.vm.isPatched place = true) :
    host.HaltsAt place := by
  intro program name args function k mid fuel hplain hname hroutine hmid hplace hfuel
  obtain ⟨p, hp, rfl⟩ := Option.map_eq_some_iff.mp hplain
  rw [Program.routine?_unpatched, Option.isSome_map] at hroutine
  obtain ⟨vm, hcall, hhalts⟩ := Debuggee.exists_call_halted hp hidle hname hroutine hmid hplace
    hpatched hfuel
  obtain ⟨host', hperform, hsame⟩ := perform_callAt hplan (Nat.zero_lt_of_lt hfuel) hcall
  exact ⟨host', hperform, hhalts.of_sameCall hsame⟩

/-- An operation by which a run fails, in a session at one level without a failure before: exactly
the breakpoint at the instruction that failed is without a trap afterwards, and the next call halts
at every other one that it comes to. -/
theorem LevelSession.failed_run_disarms {fault : Fault} (hnew : start.IsNew)
    (hsession : LevelSession start false host) (hpermits : host.Permits operation)
    (h : host.perform fuel operation = some (reply, host'))
    (hfault : reply.ending? = some (.faulted place fault)) :
    ∃ d, host'.debugger? = some d ∧ ∀ other, d.hasBreakpoint other = true →
      host'.vm.hasAddress other = true →
      (host'.vm.isPatched other = true ↔ other ≠ place) ∧ (other ≠ place → host'.HaltsAt other) := by
  have hafter := settled_perform (fun _ => hsession.settled hnew rfl) hpermits h
  rw [Reply.failedAt?, hfault] at hafter
  have hplan (s : Stepper) (hs : host' = .stepper s) : s.plan = none := by
    subst hs
    exact hafter.1
  obtain ⟨d, hdebugger, hvm, hfailed⟩ := hafter.armedAfter
  refine ⟨d, hdebugger, fun other hset haddress => ?_⟩
  have hother : d.isBreakpoint other = true := by
    rw [Debugger.isBreakpoint, hset, hvm, haddress]
    rfl
  have hpatched := hfailed.isPatched_iff other hother
  rw [hvm] at hpatched
  refine ⟨hpatched, fun hne => haltsAt_of_isPatched hplan ?_ (hpatched.mpr hne)⟩
  rw [← hvm]
  exact hfailed.notPaused

end Host

/-! ## A division by zero -/

/-- A program that divides one by zero. -/
def Program.quotient : Program :=
  .single "quotient" #[{ op := .push, immediate := 1 }, { op := .push }, { op := .div },
    { op := .ret }]

/-- A debugger whose call of the quotient is halted on a breakpoint. -/
def Debugger.onQuotient (address : Nat) : Debugger :=
  match ((({} : Debugger).load .quotient).2.set ⟨0, address⟩).call 9 "quotient" #[] with
  | some (_, d) => d
  | none => {}

/-- A stepper whose call of the quotient is halted on a breakpoint. -/
def Stepper.onQuotient (address : Nat) : Stepper :=
  match (((Stepper.ofDebugger {}).load .quotient).set ⟨0, address⟩).call 9 "quotient" #[] with
  | some (_, s) => s
  | none => .ofDebugger {}

/-- The debugger after it was asked to step on from there. -/
def Debugger.pastQuotient (address : Nat) : Debugger :=
  match (onQuotient address).stepInto 9 with
  | some (_, d) => d
  | none => {}

/-- The stepper after it was asked to go on from there. -/
def Stepper.pastQuotient (address : Nat) : Stepper :=
  match (onQuotient address).start 9 .proceed with
  | some (_, s) => s
  | none => .ofDebugger {}

namespace Host

theorem LevelSession.debugger_onQuotient {address : Nat} (haddress : address = 1 ∨ address = 2) :
    LevelSession (.debugger {}) false (.debugger (.onQuotient address)) := by
  have hloaded : LevelSession (.debugger {}) false (.debugger (({} : Debugger).load .quotient).2) :=
    LevelSession.new.perform
      (show (Host.debugger {}).Permits (.debugger (.load .quotient)) from
        show Program.quotient.IsPlain by decide)
      (show Host.perform 0 _ (.debugger (.load .quotient)) = some _ from rfl)
  have hset := hloaded.perform (by exact trivial)
    (show Host.perform 0 _ (.debugger (.set ⟨0, address⟩)) = some _ from rfl)
  have hcalled : Host.perform 9
      (.debugger ((({} : Debugger).load .quotient).2.set ⟨0, address⟩))
      (.debugger (.call "quotient" #[])) =
        some (.stopped .paused, .debugger (.onQuotient address)) := by
    rcases haddress with rfl | rfl <;> rfl
  exact hset.perform (by exact trivial) hcalled

theorem LevelSession.stepper_onQuotient :
    LevelSession (.stepper (.ofDebugger {})) false (.stepper (.onQuotient 2)) := by
  have hloaded : LevelSession (.stepper (.ofDebugger {})) false
      (.stepper ((Stepper.ofDebugger {}).load .quotient)) :=
    LevelSession.new.perform
      (show (Host.stepper (.ofDebugger {})).Permits (.stepper (.load .quotient)) from
        show Program.quotient.IsPlain by decide)
      (show Host.perform 0 _ (.stepper (.load .quotient)) = some _ from rfl)
  have hset := hloaded.perform (by exact trivial)
    (show Host.perform 0 _ (.stepper (.set ⟨0, 2⟩)) = some _ from rfl)
  exact hset.perform (by exact trivial)
    (show Host.perform 9 _ (.stepper (.call "quotient" #[])) = some (.stopped .paused, _) from rfl)

/-- A command from a breakpoint before the division fails at the division, and the breakpoint is
patched again. -/
theorem LevelSession.failed_run_disarms_quotient :
    (Host.debugger (.onQuotient 1)).perform 9 (.debugger .stepInto) =
        some (.failed (.run (.fault ⟨0, 2⟩ .divisionByZero)), .debugger (.pastQuotient 1)) ∧
      (Debugger.pastQuotient 1).hasBreakpoint ⟨0, 1⟩ = true ∧
      (Debugger.pastQuotient 1).vm.isPatched ⟨0, 1⟩ = true ∧
      (Host.debugger (.pastQuotient 1)).HaltsAt ⟨0, 1⟩ := by
  have hset : (Debugger.pastQuotient 1).hasBreakpoint ⟨0, 1⟩ = true := by decide +kernel
  have haddress : (Debugger.pastQuotient 1).vm.hasAddress ⟨0, 1⟩ = true := by decide +kernel
  have hne : (⟨0, 1⟩ : Location) ≠ ⟨0, 2⟩ := by decide
  have hfailed : (Host.debugger (.onQuotient 1)).perform 9 (.debugger .stepInto) =
      some (.failed (.run (.fault ⟨0, 2⟩ .divisionByZero)), .debugger (.pastQuotient 1)) := by
    rfl
  obtain ⟨d, hdebugger, hrest⟩ := LevelSession.failed_run_disarms
    (show (Host.debugger {}).IsNew from ⟨rfl, rfl, rfl⟩) (.debugger_onQuotient (.inl rfl))
    (show (Host.debugger (.onQuotient 1)).Permits (.debugger .stepInto) from trivial) hfailed rfl
  cases hdebugger
  obtain ⟨hpatched, hhalts⟩ := hrest ⟨0, 1⟩ hset haddress
  exact ⟨hfailed, hset, hpatched.mpr hne, hhalts hne⟩

/-- A command from a breakpoint on the division fails there, of a debugger and of a stepper, and the
breakpoint is in the set, within range, and not patched any more. The next call of the stepper, which
is still in stepping mode, halts before the division; asked to go on, it passes the breakpoint. -/
theorem LevelSession.disarmed_quotient :
    (LevelSession (.debugger {}) false (.debugger (.onQuotient 2)) ∧
      (Host.debugger (.onQuotient 2)).perform 9 (.debugger .stepInto) =
        some (.failed (.run (.fault ⟨0, 2⟩ .divisionByZero)), .debugger (.pastQuotient 2)) ∧
      (Debugger.pastQuotient 2).isBreakpoint ⟨0, 2⟩ = true ∧
      (Debugger.pastQuotient 2).vm.isPatched ⟨0, 2⟩ = false) ∧
    LevelSession (.stepper (.ofDebugger {})) false (.stepper (.onQuotient 2)) ∧
      (Host.stepper (.onQuotient 2)).perform 9 (.stepper (.start .proceed)) =
        some (.failed (.run (.fault ⟨0, 2⟩ .divisionByZero)), .stepper (.pastQuotient 2)) ∧
      (Stepper.pastQuotient 2).debugger.isBreakpoint ⟨0, 2⟩ = true ∧
      (Stepper.pastQuotient 2).vm.isPatched ⟨0, 2⟩ = false ∧
      ∃ host host',
        (Host.stepper (.pastQuotient 2)).perform 9 (.stepper (.call "quotient" #[])) =
          some (.stopped .paused, host) ∧ host.vm.haltedAt? = some ⟨0, 1⟩ ∧
        host.perform 9 (.stepper (.start .proceed)) =
          some (.failed (.run (.fault ⟨0, 2⟩ .divisionByZero)), host') := by
  refine ⟨⟨.debugger_onQuotient (.inr rfl), by rfl, by decide +kernel, by decide +kernel⟩,
    .stepper_onQuotient, by rfl, by decide +kernel, by decide +kernel, ?_⟩
  exact ⟨_, _, rfl, rfl, rfl⟩

end Host

end BytecodeDebugger
