import BytecodeDebugger.Proofs.Following
import BytecodeDebugger.Proofs.Session
import Mathlib.Data.List.Forall2

/-!
# Debugging is transparent

Whatever is asked of a debuggee, a debugger and a stepper between two calls, the call takes the
course it takes without them. While it is halted, its machine is one of the plain trace, and later
operations never find it earlier in the trace; the end of the call that an operation reports is the
end of the plain trace.
-/

namespace BytecodeDebugger

namespace Record

/-- What an operation leaves and reports is what the trace from `start` comes to after `k`
instructions. -/
structure AgreesAt (program : Program) (start : Machine) (k : Nat) (r : Record) : Prop where
  /-- A halted call is in the machine of the trace. -/
  halted : r.host.vm.isPaused = true → start.after program k = some r.host.vm.machine
  /-- A call that is over has ended in the trace. -/
  finished : r.host.vm.isPaused = false → ∃ ending, start.EndsAfter program k ending
  /-- A reported end is the end of the trace. -/
  ended : ∀ ending, r.ending? = some ending → start.EndsAfter program k ending

/-- The record reports no other end of the call than a given one. -/
def Reports (r : Record) (ending? : Option Ending) : Prop :=
  ∀ ending, r.ending? = some ending → ending? = some ending

end Record

section

variable {c : PlainCall} {k fuel : Nat} {ending? : Option Ending}

theorem Record.AgreesAt.of_follows {r : Record} (h : r.host.vm.Follows c k ending?)
    (hreports : r.Reports ending?) : r.AgreesAt c.program c.start k := by
  have hpaused := h.isPaused_eq
  cases ending? with
  | none =>
    refine ⟨fun _ => h.2.2, fun hover => ?_, fun ending hending => ?_⟩
    · rw [hpaused] at hover
      cases hover
    · cases hreports ending hending
  | some ending =>
    refine ⟨fun hhalted => ?_, fun _ => ⟨ending, h.2.2.1⟩, fun ending' hending => ?_⟩
    · rw [hpaused] at hhalted
      cases hhalted
    · cases hreports ending' hending
      exact h.2.2.1

/-- An answer to a run request of the debuggee states how the call came to rest. -/
theorem Reply.ending?_ofRun (ending? : Option Ending) :
    (Reply.ofRun .stopped (Debuggee.restAnswer ending?)).ending? = ending? := by
  match ending? with
  | none => rfl
  | some (.returned value) => rfl
  | some (.faulted place fault) => rfl

/-- An answer of a debugger to a stepping command states how the call came to rest. -/
theorem Reply.ending?_ofDebug {answer : Except DebugError StepOutcome}
    (h : Debugger.RestAnswer answer ending?) :
    (Reply.ofDebug .stepped answer).ending? = ending? := by
  match ending? with
  | none =>
    obtain ⟨frame, onBreakpoint, rfl⟩ := h
    rfl
  | some (.returned value) =>
    cases h
    rfl
  | some (.faulted place fault) =>
    cases h
    rfl

theorem Reply.ending?_runFailed (error : RunError) :
    (Reply.runFailed error).ending? = (DebugError.run error).ending? := by
  cases error <;> rfl

/-- An error states no other end of the call than the one that the debuggee came to. -/
theorem Debuggee.FollowsAnswer.of_error {α : Type} {vm : Debuggee} {error : DebugError}
    (h : vm.FollowsAnswer c k (.error error : Except DebugError α)) :
    ∃ k' ending?, k ≤ k' ∧ vm.Follows c k' ending? ∧
      ∀ ending, error.ending? = some ending → ending? = some ending := by
  simp only [FollowsAnswer] at h
  split at h
  · rename_i ending herror
    obtain ⟨k', hle, hfaulted⟩ := h
    exact ⟨k', some ending, hle, hfaulted, fun ending' hending' => herror.symm.trans hending'⟩
  · rename_i herror
    obtain ⟨k', ending?, hle, hvm⟩ := h.rest
    refine ⟨k', ending?, hle, hvm, fun ending hending => ?_⟩
    rw [herror] at hending
    cases hending

/-! ## Operations on a halted call -/

theorem Debugger.follows_perform {d d' : Debugger} {operation : DebuggerOperation} {reply : Reply}
    (hmoves : (Operation.debugger operation).movesOn = true) (hd : d.vm.Follows c k none)
    (h : d.perform fuel operation = some (reply, d')) :
    ∃ k' ending?, k ≤ k' ∧ d'.vm.Follows c k' ending? ∧ reply.ending? = ending? := by
  have hstepped {command : Answer StepOutcome}
      (hcommand : ∀ answer (e : Debugger), command = some (answer, e) → e.FollowsTo c k answer)
      (h : (command.map fun r => (Reply.ofDebug .stepped r.1, r.2)) = some (reply, d')) :
      ∃ k' ending?, k ≤ k' ∧ d'.vm.Follows c k' ending? ∧ reply.ending? = ending? := by
    obtain ⟨⟨answer, e⟩, hanswer, heq⟩ := Option.map_eq_some_iff.mp h
    obtain ⟨k', ending?, hle, hrest, he⟩ := hcommand answer e hanswer
    cases heq
    exact ⟨k', ending?, hle, he, Reply.ending?_ofDebug hrest⟩
  obtain rfl | rfl | rfl := Operation.cases_of_movesOn hmoves
  · exact hstepped (fun _ _ => followsTo_stepInto hd) h
  · exact hstepped (fun _ _ => followsTo_stepNext hd) h
  · exact hstepped (fun _ _ => followsTo_proceed hd) h

/-- An error of a stepper states the end of the call that it reports. -/
theorem Record.ending?_failed (operation : Operation) (error : DebugError) (host : Host) :
    (Record.mk operation (.failed error) host).ending? = error.ending? := by
  rw [Record.ending?]
  split
  · rename_i hreply
    cases hreply
  · exact Reply.ending?_failed error

theorem Record.ending?_unavailable (operation : Operation) (host : Host) :
    (Record.mk operation .unavailable host).ending? = none := by
  rw [Record.ending?]
  split
  · rename_i hreply
    cases hreply
  · rfl

/-- An answer of a stepper to a stepping command, with the debuggee, tells how the call came to
rest. -/
theorem Stepper.follows_perform {s s' : Stepper} {command : Command} {reply : Reply}
    (hs : s.vm.Follows c k none) (h : s.perform fuel (.start command) = some (reply, s')) :
    ∃ k' ending?, k ≤ k' ∧ s'.vm.Follows c k' ending? ∧
      (Record.mk (.stepper (.start command)) reply (.stepper s')).Reports ending? := by
  obtain ⟨⟨answer, t⟩, hstart, heq⟩ := Option.map_eq_some_iff.mp h
  have ht := follows_start ⟨k, Nat.le_refl k, .inl hs⟩ hstart
  cases answer with
  | ok flag =>
    cases heq
    obtain ⟨k', hle, hhalted | ⟨value, hreturned⟩⟩ := ht
    · refine ⟨k', none, hle, hhalted, fun ending hending => ?_⟩
      have hpaused : s'.vm.isPaused = true := hhalted.isPaused_eq
      have hnone : (if s'.vm.isPaused then none else some (Ending.returned s'.vm.returnValue)) =
        some ending := hending
      rw [if_pos hpaused] at hnone
      cases hnone
    · refine ⟨k', _, hle, hreturned, fun ending hending => ?_⟩
      have hpaused : s'.vm.isPaused = false := hreturned.isPaused_eq
      have hsome : (if s'.vm.isPaused then none else some (Ending.returned s'.vm.returnValue)) =
        some ending := hending
      rwa [hpaused, if_neg Bool.false_ne_true, hreturned.2.2.2 value rfl] at hsome
  | error error =>
    cases heq
    obtain ⟨k', ending?, hle, hvm, hstated⟩ := ht.of_error
    refine ⟨k', ending?, hle, hvm, fun ending hending => hstated ending ?_⟩
    rwa [← Record.ending?_failed]

theorem Host.follows_perform_of_movesOn {host host' : Host} {operation : Operation} {reply : Reply}
    (hmoves : operation.movesOn = true) (hvm : host.vm.Follows c k none)
    (h : host.perform fuel operation = some (reply, host')) :
    ∃ k' ending?, k ≤ k' ∧ host'.vm.Follows c k' ending? ∧
      (Record.mk operation reply host').Reports ending? := by
  cases performed_of_perform h with
  | vm hperform =>
    obtain rfl := Operation.eq_resume_of_movesOn hmoves
    obtain ⟨⟨answer, vm⟩, hresume, heq⟩ := Option.map_eq_some_iff.mp hperform
    obtain ⟨k', ending?, hle, rfl, hvm'⟩ := Debuggee.follows_resume hvm hresume
    cases heq
    refine ⟨k', ending?, hle, by rwa [vm_withVm], fun ending hending => ?_⟩
    exact (Reply.ending?_ofRun ending?).symm.trans hending
  | debugger hperform =>
    obtain ⟨k', ending?, hle, hd, hreply⟩ := Debugger.follows_perform hmoves hvm hperform
    exact ⟨k', ending?, hle, hd, fun ending hending => hreply.symm.trans hending⟩
  | within hperform =>
    obtain ⟨k', ending?, hle, hd, hreply⟩ := Debugger.follows_perform hmoves hvm hperform
    exact ⟨k', ending?, hle, hd, fun ending hending => hreply.symm.trans hending⟩
  | stepper hperform =>
    obtain ⟨command, rfl⟩ := Operation.exists_start_of_movesOn hmoves
    exact Stepper.follows_perform hvm hperform
  | wrap => cases hmoves
  | unwrap d => cases hmoves
  | unavailable =>
    refine ⟨k, none, Nat.le_refl k, hvm, fun ending hending => ?_⟩
    rw [Record.ending?_unavailable] at hending
    cases hending

/-! ## Operations without a halted call -/

theorem Debugger.pausedFrame?_of_not_isPaused {d : Debugger} (hd : d.vm.isPaused = false) :
    d.pausedFrame? = none := by
  rw [pausedFrame?, hd]
  rfl

theorem Debugger.stepInstruction_of_not_isPaused {d : Debugger} (hd : d.vm.isPaused = false)
    (fuel : Nat) : d.stepInstruction fuel = some (.error (.notPaused .single), d) := by
  rw [stepInstruction, pausedFrame?_of_not_isPaused hd]

/-- Without a halted call, a stepping command changes nothing and is answered by an error. -/
theorem Debugger.perform_of_not_isPaused {d d' : Debugger} {operation : DebuggerOperation}
    {reply : Reply} (hmoves : (Operation.debugger operation).movesOn = true)
    (hd : d.vm.isPaused = false) (h : d.perform fuel operation = some (reply, d')) :
    d' = d ∧ ∃ command, reply = .failed (.notPaused command) := by
  have hstep := stepInstruction_of_not_isPaused hd
  obtain rfl | rfl | rfl := Operation.cases_of_movesOn hmoves
  · cases fuel with
    | zero => cases h
    | succ fuel =>
      simp only [perform, stepInto, stepToStopPoint, hstep] at h
      cases h
      exact ⟨rfl, .single, rfl⟩
  · simp only [perform, stepNext, pausedFrame?_of_not_isPaused hd] at h
    cases h
    exact ⟨rfl, .over, rfl⟩
  · simp only [perform, proceed, hstep] at h
    cases h
    exact ⟨rfl, .single, rfl⟩

/-- Without a halted call, an operation that moves a call on leaves the debuggee alone and reports
no end. -/
theorem Host.perform_of_not_isPaused {host host' : Host} {operation : Operation} {reply : Reply}
    (hmoves : operation.movesOn = true) (hvm : host.vm.isPaused = false)
    (h : host.perform fuel operation = some (reply, host')) :
    host'.vm = host.vm ∧ (Record.mk operation reply host').ending? = none := by
  cases performed_of_perform h with
  | vm hperform =>
    obtain rfl := Operation.eq_resume_of_movesOn hmoves
    simp only [Debuggee.perform, Debuggee.resume_of_not_isPaused hvm] at hperform
    cases hperform
    exact ⟨vm_withVm host _, rfl⟩
  | debugger hperform =>
    obtain ⟨rfl, command, rfl⟩ := Debugger.perform_of_not_isPaused hmoves hvm hperform
    exact ⟨rfl, Record.ending?_failed _ _ _⟩
  | within hperform =>
    obtain ⟨rfl, command, rfl⟩ := Debugger.perform_of_not_isPaused hmoves hvm hperform
    exact ⟨rfl, Record.ending?_failed _ _ _⟩
  | stepper hperform =>
    rename_i s s' operation
    obtain ⟨command, rfl⟩ := Operation.exists_start_of_movesOn hmoves
    have hs : s.vm.isPaused = false := hvm
    simp only [Stepper.perform, Stepper.start, hs] at hperform
    cases hperform
    exact ⟨rfl, Record.ending?_failed _ _ _⟩
  | wrap => cases hmoves
  | unwrap d => cases hmoves
  | unavailable => exact ⟨rfl, Record.ending?_unavailable operation host⟩

/-! ## Sessions -/

/-- A call that is followed is still followed, no less far, after an operation that neither loads nor
calls, and the operation reports no other end than that of the call. -/
theorem Host.follows_perform {host host' : Host} {operation : Operation} {reply : Reply}
    (hkeeps : operation.startsOver = false) (hvm : host.vm.Follows c k ending?)
    (h : host.perform fuel operation = some (reply, host')) :
    ∃ k' ending?, k ≤ k' ∧ host'.vm.Follows c k' ending? ∧
      (Record.mk operation reply host').Reports ending? := by
  cases hmoves : operation.movesOn with
  | false =>
    obtain ⟨hsame, hreply⟩ := quiet_perform (by simp [Operation.isQuiet, hkeeps, hmoves]) h
    refine ⟨k, ending?, Nat.le_refl k, hvm.of_sameCall hsame, fun ending hending => ?_⟩
    rw [Record.ending?_eq hmoves, hreply] at hending
    cases hending
  | true =>
    cases ending? with
    | none => exact follows_perform_of_movesOn hmoves hvm h
    | some ending =>
      obtain ⟨hsame, hnone⟩ := perform_of_not_isPaused hmoves hvm.isPaused_eq h
      refine ⟨k, some ending, Nat.le_refl k, by rwa [hsame], fun ending' hending' => ?_⟩
      rw [hnone] at hending'
      cases hending'

/-- The run of a session that follows a call: its counts of instructions never decrease. -/
theorem Host.follows_serve {host : Host} {operations : List (Nat × Operation)}
    {records : List Record} (hkeeps : ∀ o ∈ operations, o.2.startsOver = false)
    (hvm : host.vm.Follows c k ending?) (h : host.serve operations = some records) :
    ∃ counts : List Nat, (k :: counts).Pairwise (· ≤ ·) ∧
      List.Forall₂ (Record.AgreesAt c.program c.start) counts records := by
  induction operations generalizing host records k ending? with
  | nil =>
    cases h
    exact ⟨[], List.pairwise_singleton _ k, .nil⟩
  | cons o rest ih =>
    obtain ⟨fuel, operation⟩ := o
    rw [serve] at h
    split at h
    · cases h
    · rename_i reply host' hperform
      obtain ⟨later, hlater, rfl⟩ := Option.map_eq_some_iff.mp h
      obtain ⟨k', ending', hle, hvm', hreports⟩ :=
        follows_perform (hkeeps _ List.mem_cons_self) hvm hperform
      obtain ⟨counts, hcounts, hagrees⟩ :=
        ih (fun o ho => hkeeps o (List.mem_cons_of_mem _ ho)) hvm' hlater
      refine ⟨k' :: counts, ?_, .cons (.of_follows hvm' hreports) hagrees⟩
      refine List.pairwise_cons.mpr ⟨fun j hj => ?_, hcounts⟩
      rcases List.mem_cons.mp hj with rfl | hj
      · exact hle
      · exact Nat.le_trans hle ((List.pairwise_cons.mp hcounts).1 j hj)

/-! ## Calls -/

section Calls

variable {p : Program} {name : String} {function : Nat} {args : Array Int32}

/-- A call by a debugger is answered as the call by its debuggee, and leaves the same debuggee. -/
theorem Debugger.perform_call {d d' : Debugger} {reply : Reply}
    (h : d.perform fuel (.call name args) = some (reply, d')) :
    ∃ answer, d.vm.call fuel name args = some (answer, d'.vm) ∧
      reply.ending? = (Reply.ofRun .stopped answer).ending? := by
  simp only [perform, call, Option.map_map] at h
  obtain ⟨⟨answer, vm⟩, hcall, heq⟩ := Option.map_eq_some_iff.mp h
  refine ⟨answer, ?_⟩
  match answer with
  | .error error =>
    cases heq
    refine ⟨hcall, ?_⟩
    cases error <;> rfl
  | .ok .paused =>
    simp only [Function.comp_apply] at heq
    split at heq <;> cases heq <;> exact ⟨hcall, rfl⟩
  | .ok (.finished value) =>
    cases heq
    exact ⟨hcall, rfl⟩

/-- A call by a stepper follows the plain call, also if a plan goes on after the first halt. -/
theorem Stepper.follows_call {s s' : Stepper} {reply : Reply}
    (hfree : p.TrapFree) (hp : s.vm.program = some p) (hpaused : s.vm.isPaused = false)
    (hname : p.lookup? name = some function) (hroutine : (p.routine? function).isSome)
    (h : s.perform fuel (.call name args) = some (reply, s')) :
    ∃ k ending?, s'.vm.Follows (.ofRoutine p hfree function args) k ending? ∧
      ∀ ending, reply.ending? = some ending → ending? = some ending := by
  obtain ⟨⟨answer, t⟩, hcall, heq⟩ := Option.map_eq_some_iff.mp h
  simp only [call] at hcall
  split at hcall
  · cases hcall
  · rename_i vm hrun
    obtain ⟨⟨driven, t'⟩, hdrive, heq'⟩ := Option.map_eq_some_iff.mp hcall
    obtain ⟨k, ending?, hanswer, hvm⟩ :=
      Debuggee.follows_call hfree hp hpaused hname hroutine hrun
    have hending : none = ending? :=
      (congrArg (fun a => (Reply.ofRun .stopped a).ending?) hanswer).trans
        (Reply.ending?_ofRun ending?)
    have hhalted : (s.withVm vm).noteBreak.vm.Follows _ k none :=
      hending ▸ hvm.of_sameCall (sameCall_noteBreak (s.withVm vm))
    have ht := follows_drive ⟨k, Nat.le_refl k, .inl hhalted⟩ hdrive
    cases driven with
    | ok value =>
      cases heq'
      cases heq
      obtain ⟨k', ending', -, hrest⟩ := ht.rest
      refine ⟨k', ending', hrest, fun ending hending => ?_⟩
      cases hending
    | error error =>
      cases heq'
      cases heq
      obtain ⟨k', ending', -, hrest, hstated⟩ := ht.of_error
      refine ⟨k', ending', hrest, fun ending hending => hstated ending ?_⟩
      rwa [← Reply.ending?_failed]
  · rename_i value vm hrun
    cases hcall
    cases heq
    obtain ⟨k, ending?, hanswer, hvm⟩ :=
      Debuggee.follows_call hfree hp hpaused hname hroutine hrun
    refine ⟨k, ending?, by rwa [vm_noteFinished], fun ending hending => ?_⟩
    rw [← Reply.ending?_ofRun ending?, ← hanswer]
    exact hending
  · rename_i error vm hrun
    cases hcall
    cases heq
    obtain ⟨k, ending?, hanswer, hvm⟩ :=
      Debuggee.follows_call hfree hp hpaused hname hroutine hrun
    refine ⟨k, ending?, by rwa [vm_noteError], fun ending hending => ?_⟩
    rw [← Reply.ending?_ofRun ending?, ← hanswer, Reply.ofRun, Reply.ending?_runFailed]
    rwa [← Reply.ending?_failed]

/-- The operations by which a host can call a routine: its own and those of the levels within. -/
inductive Host.Calls (name : String) (args : Array Int32) : Host → Operation → Prop
  | vm (host : Host) : Calls name args host (.vm (.call name args))
  | debugger (d : Debugger) : Calls name args (.debugger d) (.debugger (.call name args))
  | within (s : Stepper) : Calls name args (.stepper s) (.debugger (.call name args))
  | stepper (s : Stepper) : Calls name args (.stepper s) (.stepper (.call name args))

/-- A call of an exported routine follows the plain call, at whichever level it is made. -/
theorem Host.follows_call {host host' : Host} {call : Operation} {reply : Reply}
    (hfree : p.TrapFree) (hp : host.vm.program = some p) (hpaused : host.vm.isPaused = false)
    (hname : p.lookup? name = some function) (hroutine : (p.routine? function).isSome)
    (hcall : host.Calls name args call)
    (h : host.perform fuel call = some (reply, host')) :
    ∃ k ending?, host'.vm.Follows (.ofRoutine p hfree function args) k ending? ∧
      (Record.mk call reply host').Reports ending? := by
  have hvm {answer : Except RunError Stop} {vm : Debuggee}
      (hrun : host.vm.call fuel name args = some (answer, vm)) :
      ∃ k ending?, vm.Follows (.ofRoutine p hfree function args) k ending? ∧
        (Reply.ofRun .stopped answer).ending? = ending? := by
    obtain ⟨k, ending?, rfl, hvm⟩ := Debuggee.follows_call hfree hp hpaused hname hroutine hrun
    exact ⟨k, ending?, hvm, Reply.ending?_ofRun ending?⟩
  have hdebugger {d d' : Debugger} {reply : Reply} (hd : d.vm = host.vm)
      (hperform : d.perform fuel (.call name args) = some (reply, d')) :
      ∃ k ending?, d'.vm.Follows (.ofRoutine p hfree function args) k ending? ∧
        ∀ ending, reply.ending? = some ending → ending? = some ending := by
    obtain ⟨answer, hrun, hanswer⟩ := Debugger.perform_call hperform
    rw [hd] at hrun
    obtain ⟨k, ending?, hd', hreply⟩ := hvm hrun
    refine ⟨k, ending?, hd', fun ending hending => ?_⟩
    exact hreply.symm.trans (hanswer.symm.trans hending)
  cases hcall with
  | vm =>
    obtain ⟨⟨reply, vm⟩, hperform, heq⟩ := Option.map_eq_some_iff.mp h
    obtain ⟨⟨answer, vm⟩, hrun, heq'⟩ := Option.map_eq_some_iff.mp hperform
    obtain ⟨k, ending?, hvm, hreply⟩ := hvm hrun
    cases heq'
    cases heq
    exact ⟨k, ending?, by rwa [vm_withVm], fun ending hending => hreply.symm.trans hending⟩
  | debugger d =>
    obtain ⟨⟨reply, d'⟩, hperform, heq⟩ := Option.map_eq_some_iff.mp h
    cases heq
    exact hdebugger rfl hperform
  | within s =>
    obtain ⟨⟨reply, d'⟩, hperform, heq⟩ := Option.map_eq_some_iff.mp h
    cases heq
    exact hdebugger rfl hperform
  | stepper s =>
    obtain ⟨⟨reply, s'⟩, hperform, heq⟩ := Option.map_eq_some_iff.mp h
    obtain ⟨k, ending?, hvm, hreply⟩ :=
      Stepper.follows_call hfree hp hpaused hname hroutine hperform
    cases heq
    exact ⟨k, ending?, hvm, hreply⟩

/-- Debugging is transparent. After a call of an exported routine, whatever a session does until it
loads or calls again agrees with the plain trace of the call, at counts of instructions that never
decrease. -/
theorem Host.serve_transparent {host : Host} {call : Operation} {rest : List (Nat × Operation)}
    {records : List Record} (hfree : p.TrapFree) (hp : host.vm.program = some p)
    (hpaused : host.vm.isPaused = false) (hname : p.lookup? name = some function)
    (hroutine : (p.routine? function).isSome) (hcall : host.Calls name args call)
    (hkeeps : ∀ o ∈ rest, o.2.startsOver = false)
    (h : host.serve ((fuel, call) :: rest) = some records) :
    ∃ counts : List Nat, counts.Pairwise (· ≤ ·) ∧
      List.Forall₂ (Record.AgreesAt p.unpatched (Machine.start function args)) counts records := by
  rw [serve] at h
  split at h
  · cases h
  · rename_i reply host' hperform
    obtain ⟨later, hlater, rfl⟩ := Option.map_eq_some_iff.mp h
    obtain ⟨k, ending?, hvm, hreports⟩ :=
      follows_call hfree hp hpaused hname hroutine hcall hperform
    obtain ⟨counts, hcounts, hagrees⟩ := follows_serve hkeeps hvm hlater
    exact ⟨k :: counts, hcounts, .cons (.of_follows hvm hreports) hagrees⟩

/-- A sum with a breakpoint on the addition. The call halts there, stays there by a step of the
stepper that is put over the debugger, and ends by a command of the debugger. -/
theorem Host.serve_transparent_sum :
    ∃ (records : List Record) (counts : List Nat),
      (Host.debugger ((({} : Debugger).load .sum).2.set ⟨0, 2⟩)).serve
        [(9, .debugger (.call "sum" #[])), (9, .wrap), (9, .stepper (.start .single)),
          (9, .debugger .proceed)] = some records ∧
      counts.Pairwise (· ≤ ·) ∧
      List.Forall₂ (Record.AgreesAt (Program.sum.patch ⟨0, 2⟩).2.unpatched (Machine.start 0 #[]))
        counts records := by
  obtain ⟨records, hserve⟩ := Option.isSome_iff_exists.mp (show
    ((Host.debugger ((({} : Debugger).load .sum).2.set ⟨0, 2⟩)).serve
      [(9, .debugger (.call "sum" #[])), (9, .wrap), (9, .stepper (.start .single)),
        (9, .debugger .proceed)]).isSome by decide)
  obtain ⟨counts, hcounts, hagrees⟩ := Host.serve_transparent
    (show (Program.sum.patch ⟨0, 2⟩).2.TrapFree by decide) rfl rfl
    (show (Program.sum.patch ⟨0, 2⟩).2.lookup? "sum" = some 0 by decide) (by decide)
    (.debugger _) (by decide) hserve
  exact ⟨records, counts, hserve, hcounts, hagrees⟩

end Calls

end

end BytecodeDebugger
