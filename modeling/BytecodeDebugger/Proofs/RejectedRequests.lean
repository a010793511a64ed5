import BytecodeDebugger.Proofs.HeardRuns
import BytecodeDebugger.Proofs.StepperProtocol
import BytecodeDebugger.Proofs.StepperRuns

/-!
# Rejected requests change nothing

An operation that is answered by an error other than a failed run was rejected, and leaves the host
as it was. An operation that is not rejected and runs the debuggee issues run requests, of each of
which the consumer of halts hears once, and its reply states how the last of them ended.

## Implementation notes

A stepper notes an answer by an error as the end of the call, also if nothing was run. That this
changes nothing is due to `InOrder`: between operations, its notes are those of a call that is over
whenever no call is halted. A stepper is therefore used at its own level here, and of the levels
below only what runs nothing is asked. A debuggee and a debugger keep no notes.

A rejected call of a debugger is told to the subscribers of `activity`, which is not part of what it
controls.
-/

namespace BytecodeDebugger

namespace Reply

/-- Whether a reply states that an operation was not served: an error other than a failed run. -/
def isRejection : Reply → Bool
  | .runFailed error => error.failedAt?.isNone
  | .failed error => error.failedAt?.isNone
  | _ => false

theorem isRejection_of_failedAt? {error : RunError} (h : error.failedAt? = none) :
    (failed (.run error)).isRejection = true := by
  rw [isRejection, DebugError.failedAt?, h]
  rfl

/-- A reply that states how a run request ended is no rejection. -/
theorem States.not_isRejection {vm vm' : Debuggee} {reply : Reply} {last : Except RunError Stop}
    (h : reply.States vm' last) (hvm : vm.Consistent) (hran : vm.Ran last vm') :
    reply.isRejection = false := by
  cases h with
  | runFailed error =>
    obtain ⟨place, fault, rfl⟩ := hran.eq_fault hvm
    rfl
  | failed error =>
    obtain ⟨place, fault, rfl⟩ := hran.eq_fault hvm
    rfl
  | _ => rfl

end Reply

namespace Operation

/-- Whether an operation runs the debuggee, if it is not rejected. -/
def runs (operation : Operation) : Bool :=
  operation.movesOn || (operation.startsOver && !operation.loads)

/-- Whether an operation issues one run request, if it is not rejected. -/
def runsOnce : Operation → Bool
  | .vm (.call _ _) | .vm .resume | .debugger (.call _ _) | .stepper (.call _ _) => true
  | _ => false

theorem not_runs_of_isQuiet {operation : Operation} (h : operation.isQuiet = true) :
    operation.runs = false := by
  rw [isQuiet, Bool.and_eq_true, Bool.not_eq_true', Bool.not_eq_true'] at h
  rw [runs, h.1, h.2]
  rfl

end Operation

/-! ## Operations that run the debuggee -/

open Debuggee (Serves)

/-- How an operation that was not rejected ran the debuggee: by run requests, the last of which its
reply is about. -/
def Debuggee.Runs (vm : Debuggee) (operation : Operation) (reply : Reply) (vm' : Debuggee) : Prop :=
  ∃ runs last, vm.Serves (runs ++ [last]) vm' ∧ reply.States vm' last.answer ∧
    (operation.runsOnce = true → runs = [])

/-- An operation that issues a single run request. -/
theorem Debuggee.Runs.once {vm vm' : Debuggee} {operation : Operation} {reply : Reply}
    {last : ServedRun} (h : vm.Serves [last] vm') (hstates : reply.States vm' last.answer) :
    vm.Runs operation reply vm' :=
  ⟨[], last, h, hstates, fun _ => rfl⟩

/-- An operation that may issue several run requests. -/
theorem Debuggee.Ran.runs {vm vm' : Debuggee} {operation : Operation} {reply : Reply}
    {answer : Except RunError Stop} (h : vm.Ran answer vm') (hstates : reply.States vm' answer)
    (hmany : operation.runsOnce = false) : vm.Runs operation reply vm' := by
  obtain ⟨runs, last, hserves, rfl⟩ := h
  refine ⟨runs, last, hserves, hstates, fun honce => ?_⟩
  rw [hmany] at honce
  cases honce

theorem Debuggee.Runs.not_isRejection {vm vm' : Debuggee} {operation : Operation} {reply : Reply}
    (h : vm.Runs operation reply vm') (hvm : vm.Consistent) : reply.isRejection = false := by
  obtain ⟨runs, last, hserves, hstates, -⟩ := h
  exact hstates.not_isRejection hvm ⟨runs, last, hserves, rfl⟩

/-- A call that is not rejected issues one run request, with its answer. -/
theorem Debuggee.call_cases {vm vm' : Debuggee} {fuel : Nat} {name : String} {args : Array Int32}
    {answer : Except RunError Stop} (h : vm.call fuel name args = some (answer, vm')) :
    (∃ error, answer = .error error ∧ error.failedAt? = none ∧ vm' = vm) ∨
      ∃ last : ServedRun, vm.Serves [last] vm' ∧ last.answer = answer := by
  obtain hrejected | ⟨running, hissued, hrun⟩ := issues_of_call h
  · exact .inl hrejected
  · let last : ServedRun := ⟨running, fuel, answer, vm', hrun⟩
    exact .inr ⟨last, Serves.refl.run last hissued, rfl⟩

theorem Debuggee.rejected_or_runs {vm vm' : Debuggee} {fuel : Nat} {operation : VmOperation}
    {reply : Reply} (hruns : (Operation.vm operation).runs = true)
    (h : vm.perform fuel operation = some (reply, vm')) :
    (reply.isRejection = true ∧ vm' = vm) ∨ vm.Runs (.vm operation) reply vm' := by
  have hstates (answer : Except RunError Stop) :
      (Reply.ofRun .stopped answer).States vm' answer := by
    cases answer with
    | ok stop => exact .stopped stop
    | error error => exact .runFailed error
  cases operation with
  | load program => cases hruns
  | setStepping on => cases hruns
  | setHandler => cases hruns
  | clearHandler => cases hruns
  | call name args =>
    obtain ⟨⟨answer, vm₁⟩, hcall, heq⟩ := Option.map_eq_some_iff.mp h
    cases heq
    obtain ⟨error, rfl, herror, rfl⟩ | ⟨last, hserves, rfl⟩ := call_cases hcall
    · exact .inl ⟨by rw [Reply.ofRun, Reply.isRejection, herror]; rfl, rfl⟩
    · exact .inr (.once hserves (hstates last.answer))
  | resume =>
    obtain ⟨⟨answer, vm₁⟩, hresume, heq⟩ := Option.map_eq_some_iff.mp h
    cases heq
    obtain ⟨-, rfl, rfl⟩ | ⟨hpaused, hrun⟩ := run_of_resume hresume
    · exact .inl ⟨rfl, rfl⟩
    · let last : ServedRun := ⟨vm, fuel, answer, vm', hrun⟩
      have hserves : vm.Serves [last] vm' := Serves.refl.run last (.resume hpaused)
      exact .inr (.once hserves (hstates answer))

/-- A debugger after a rejected operation: the subscribers were told of a call, and nothing else was
changed. -/
def Debugger.rejected (d : Debugger) : DebuggerOperation → Debugger
  | .call _ _ => { d with activity := (d.activity.notify true).notify false }
  | _ => d

theorem Debugger.rejected_or_runs {d d' : Debugger} {fuel : Nat} {operation : DebuggerOperation}
    {reply : Reply} (hruns : (Operation.debugger operation).runs = true)
    (h : d.perform fuel operation = some (reply, d')) :
    (reply.isRejection = true ∧ d' = d.rejected operation) ∨
      d.vm.Runs (.debugger operation) reply d'.vm := by
  cases hmoves : (Operation.debugger operation).movesOn with
  | true =>
    have hkept : d.rejected operation = d := by
      obtain rfl | rfl | rfl := Operation.cases_of_movesOn hmoves <;> rfl
    have hmany : (Operation.debugger operation).runsOnce = false := by
      obtain rfl | rfl | rfl := Operation.cases_of_movesOn hmoves <;> rfl
    obtain ⟨answer, rfl, hcommanded⟩ := commanded_perform hmoves h
    cases hcommanded with
    | rejected command hidle => exact .inl ⟨rfl, hkept.symm⟩
    | served hran =>
      obtain ⟨last, hlast, hstates⟩ := hran.vm
      rw [vm_told]
      exact .inr (hlast.runs hstates hmany)
  | false =>
    obtain ⟨name, args, rfl⟩ : ∃ name args, operation = .call name args := by
      cases operation <;> simp_all [Operation.runs, Operation.startsOver, Operation.loads]
    obtain ⟨⟨answer, e⟩, hcall, heq⟩ := Option.map_eq_some_iff.mp h
    cases heq
    obtain ⟨run, hrun, hended⟩ := call_eq_some hcall
    obtain ⟨error, rfl, herror, hvm⟩ | ⟨last, hserves, rfl⟩ := Debuggee.call_cases hrun
    · obtain ⟨hrun, -⟩ | ⟨value, hrun, -⟩ | ⟨_, hrun, rfl, heq⟩ := hended
      · cases hrun
      · cases hrun
      · cases hrun
        refine .inl ⟨Reply.isRejection_of_failedAt? herror, ?_⟩
        rw [heq, hvm]
        rfl
    · refine .inr (.once hserves ?_)
      obtain ⟨hrun, rfl, -⟩ | ⟨value, hrun, rfl, -⟩ | ⟨error, hrun, rfl, -⟩ := hended
      · rw [hrun]
        exact .stopped .paused
      · rw [hrun]
        exact .stopped (.finished value)
      · rw [hrun]
        exact .failed error

/-- A stepper in order notes of a rejected request what it has noted already. -/
theorem Stepper.InOrder.noteError_eq {s : Stepper} (hs : s.InOrder) : s.noteError = s := by
  cases hpaused : s.vm.isPaused with
  | true => rw [noteError, if_pos hpaused]
  | false =>
    have htold : s.paused = false := hs.truthful.paused.trans hpaused
    have hnote : s.onBreakpoint = false := by
      rw [← Bool.not_eq_true]
      intro hnote
      rw [hs.truthful.onBreakpoint hnote] at hpaused
      cases hpaused
    have hsame : { s with onBreakpoint := false } = s := by
      rw [← hnote]
    rw [noteError_of_not_isPaused hpaused, noteFinished, hsame, setPaused, if_pos htold]

/-- What a stepper notes of a call runs nothing. -/
theorem Stepper.call_states {s s' : Stepper} {fuel : Nat} {name : String} {args : Array Int32}
    {answer : Except DebugError Stop} (hs : s.InOrder)
    (h : s.call fuel name args = some (answer, s')) :
    (∃ error, answer = .error (.run error) ∧ error.failedAt? = none ∧ s' = s) ∨
      ∃ last : Debuggee.ServedRun, s.vm.Serves [last] s'.vm ∧
        (Reply.ofDebug .stopped answer).States s'.vm last.answer := by
  obtain ⟨run, vm, hcall, hended⟩ := call_eq_some hs.plan h
  obtain ⟨error, rfl, herror, hvm⟩ | ⟨last, hserves, rfl⟩ := Debuggee.call_cases hcall
  · obtain ⟨hrun, -⟩ | ⟨value, hrun, -⟩ | ⟨_, hrun, rfl, rfl⟩ := hended
    · cases hrun
    · cases hrun
    · cases hrun
      refine .inl ⟨error, rfl, herror, ?_⟩
      rw [hvm, withVm_self, hs.noteError_eq]
  · obtain ⟨hrun, rfl, rfl⟩ | ⟨value, hrun, rfl, rfl⟩ | ⟨error, hrun, rfl, rfl⟩ := hended
    · refine .inr ⟨last, ?_, hrun ▸ .stopped .paused⟩
      rw [vm_complete]
      exact hserves.trans (s.withVm vm).serves_noteBreak
    · refine .inr ⟨last, ?_, hrun ▸ .stopped (.finished value)⟩
      rw [vm_noteFinished]
      exact hserves
    · refine .inr ⟨last, ?_, hrun ▸ .failed error⟩
      rw [vm_noteError]
      exact hserves

theorem Stepper.rejected_or_runs {s s' : Stepper} {fuel : Nat} {operation : StepperOperation}
    {reply : Reply} (hs : s.InOrder) (hvm : s.vm.Consistent)
    (hruns : (Operation.stepper operation).runs = true)
    (h : s.perform fuel operation = some (reply, s')) :
    (reply.isRejection = true ∧ s' = s) ∨ s.vm.Runs (.stepper operation) reply s'.vm := by
  cases operation with
  | load program => cases hruns
  | set place => cases hruns
  | remove place => cases hruns
  | pause => cases hruns
  | call name args =>
    obtain ⟨⟨answer, t⟩, hcall, heq⟩ := Option.map_eq_some_iff.mp h
    cases heq
    obtain ⟨error, rfl, herror, rfl⟩ | ⟨last, hserves, hstates⟩ := call_states hs hcall
    · exact .inl ⟨Reply.isRejection_of_failedAt? herror, rfl⟩
    · exact .inr (.once hserves hstates)
  | start command =>
    obtain ⟨⟨answer, t⟩, hstart, heq⟩ := Option.map_eq_some_iff.mp h
    cases heq
    cases hpaused : s.vm.isPaused with
    | false =>
      rw [start, hpaused] at hstart
      cases hstart
      exact .inl ⟨rfl, rfl⟩
    | true =>
      obtain ⟨last, hlast, hstates⟩ := ran_start hvm hpaused hstart
      refine .inr (hlast.runs ?_ rfl)
      cases answer with
      | error error => exact hstates
      | ok completed =>
        cases hstates with
        | flag _ stop => exact .flag completed stop

/-! ## Operations that run nothing -/

/-- Of these, only registering a second consumer of halts is rejected. -/
theorem Debuggee.eq_of_isRejection {vm vm' : Debuggee} {fuel : Nat} {operation : VmOperation}
    {reply : Reply} (hruns : (Operation.vm operation).runs = false)
    (hreply : reply.isRejection = true) (h : vm.perform fuel operation = some (reply, vm')) :
    vm' = vm := by
  cases operation with
  | call name args => cases hruns
  | resume => cases hruns
  | setHandler =>
    cases hpresent : vm.hasHandler with
    | true =>
      simp only [perform, setHandler, hpresent, if_true] at h
      cases h
      rfl
    | false =>
      simp only [perform, setHandler, hpresent, Bool.false_eq_true, if_false] at h
      cases h
      cases hreply
  | _ =>
    cases h
    cases hreply

theorem Debugger.not_isRejection {d d' : Debugger} {fuel : Nat} {operation : DebuggerOperation}
    {reply : Reply} (hruns : (Operation.debugger operation).runs = false)
    (h : d.perform fuel operation = some (reply, d')) : reply.isRejection = false := by
  cases operation with
  | call name args => cases hruns
  | stepInto => cases hruns
  | stepNext => cases hruns
  | proceed => cases hruns
  | _ =>
    cases h
    rfl

theorem Stepper.not_isRejection {s s' : Stepper} {fuel : Nat} {operation : StepperOperation}
    {reply : Reply} (hruns : (Operation.stepper operation).runs = false)
    (h : s.perform fuel operation = some (reply, s')) : reply.isRejection = false := by
  cases operation with
  | call name args => cases hruns
  | start command => cases hruns
  | _ =>
    cases h
    rfl

/-! ## Sessions -/

/-- The levels at which a debuggee is controlled. -/
inductive Level where
  | debuggee
  | debugger
  | stepper

/-- The operations of a level, and of the levels below it those that do not interfere: a stepper
leaves to others what runs nothing. -/
def Level.Permits : Level → Operation → Prop
  | .debuggee, .vm _ => True
  | .debugger, .vm _ => True
  | .debugger, .debugger _ => True
  | .stepper, .stepper _ => True
  | .stepper, .vm operation => (Operation.vm operation).isQuiet = true
  | .stepper, .debugger operation => (Operation.debugger operation).isQuiet = true
  | _, _ => False

namespace Host

variable {host host' start : Host} {fuel : Nat} {operation : Operation} {reply : Reply}

/-- The level of a host. -/
def level : Host → Level
  | .debuggee _ => .debuggee
  | .debugger _ => .debugger
  | .stepper _ => .stepper

/-- A host of any level, all of which was just made, and of which no subscriber heard. -/
def IsFresh : Host → Prop
  | .debuggee vm => vm = {}
  | .debugger d => d.IsNew
  | .stepper s => s.IsNew ∧ s.pauses.log = #[]

/-- The notes of a host about the call in progress are in order; only a stepper keeps notes. -/
def Noted : Host → Prop
  | .debuggee _ => True
  | .debugger _ => True
  | .stepper s => s.InOrder

/-- How a host stands between two operations. -/
structure InOrder (host : Host) : Prop where
  consistent : host.vm.Consistent
  noted : host.Noted

/-- A host after a rejected operation. It is the same, but that the subscribers of a debugger were
told of a call. -/
def rejected : Host → Operation → Host
  | .debugger d, .debugger operation => .debugger (d.rejected operation)
  | host, _ => host

theorem IsFresh.inOrder (h : host.IsFresh) : host.InOrder := by
  have hvm : host.vm = {} := by
    cases host with
    | debuggee vm => exact h
    | debugger d => exact Debugger.IsNew.vm h
    | stepper s => exact (Stepper.IsNew.debugger h.1).vm
  constructor
  · rw [hvm]
    exact Debuggee.consistent_new
  · cases host with
    | debuggee vm => trivial
    | debugger d => trivial
    | stepper s => exact Stepper.IsNew.inOrder h.1 h.2

/-- The step lemma: an operation of the level of a host leaves it in order and at its level. -/
theorem InOrder.perform (hhost : host.InOrder) (hpermits : host.level.Permits operation)
    (h : host.perform fuel operation = some (reply, host')) :
    host'.InOrder ∧ host'.level = host.level := by
  have hconsistent : host'.vm.Consistent := hhost.consistent.of_leads (leads_perform h)
  have hnoted := hhost.noted
  cases performed_of_perform h with
  | vm hperform =>
    cases host with
    | debuggee vm => exact ⟨⟨hconsistent, trivial⟩, rfl⟩
    | debugger d => exact ⟨⟨hconsistent, trivial⟩, rfl⟩
    | stepper s =>
      have hsame := (Debuggee.quiet_perform hpermits hperform).1
      exact ⟨⟨hconsistent, Stepper.InOrder.withDebugger hnoted hsame⟩, rfl⟩
  | debugger hperform => exact ⟨⟨hconsistent, trivial⟩, rfl⟩
  | within hperform =>
    have hsame := (Debugger.quiet_perform hpermits hperform).1
    exact ⟨⟨hconsistent, Stepper.InOrder.withDebugger hnoted hsame⟩, rfl⟩
  | stepper hperform =>
    exact ⟨⟨hconsistent, (Stepper.InOrder.perform hnoted hperform).1⟩, rfl⟩
  | wrap => cases host <;> exact hpermits.elim
  | unwrap d => exact hpermits.elim
  | unavailable => exact ⟨hhost, rfl⟩

/-- The run lemma: a session of operations of the level that it starts at. -/
theorem Session.inOrder {failed : Bool} (hfresh : start.IsFresh)
    (h : Session start.level.Permits start failed host) :
    host.InOrder ∧ host.level = start.level := by
  induction h with
  | new => exact ⟨hfresh.inOrder, rfl⟩
  | perform before hpermits hperform ih =>
    obtain ⟨hhost, hlevel⟩ := ih
    rw [← hlevel] at hpermits
    obtain ⟨hhost', hlevel'⟩ := hhost.perform hpermits hperform
    exact ⟨hhost', hlevel'.trans hlevel⟩

/-- An operation that runs the debuggee was rejected, or it did so. -/
theorem InOrder.rejected_or_runs (hhost : host.InOrder) (hpermits : host.level.Permits operation)
    (hruns : operation.runs = true) (h : host.perform fuel operation = some (reply, host')) :
    (reply.isRejection = true ∧ host' = host.rejected operation) ∨
      host.vm.Runs operation reply host'.vm := by
  cases operation with
  | vm operation =>
    obtain ⟨⟨answer, vm⟩, hperform, heq⟩ := Option.map_eq_some_iff.mp h
    cases heq
    rw [vm_withVm]
    obtain ⟨hreply, rfl⟩ | hran := Debuggee.rejected_or_runs hruns hperform
    · refine .inl ⟨hreply, ?_⟩
      cases host <;> rfl
    · exact .inr hran
  | debugger operation =>
    cases host with
    | debuggee vm => exact hpermits.elim
    | debugger d =>
      obtain ⟨⟨answer, e⟩, hperform, heq⟩ := Option.map_eq_some_iff.mp h
      cases heq
      obtain ⟨hreply, rfl⟩ | hran := Debugger.rejected_or_runs hruns hperform
      · exact .inl ⟨hreply, rfl⟩
      · exact .inr hran
    | stepper s =>
      have hquiet : (Operation.debugger operation).isQuiet = true := hpermits
      rw [Operation.not_runs_of_isQuiet hquiet] at hruns
      cases hruns
  | stepper operation =>
    cases host with
    | debuggee vm => exact hpermits.elim
    | debugger d => exact hpermits.elim
    | stepper s =>
      obtain ⟨⟨answer, t⟩, hperform, heq⟩ := Option.map_eq_some_iff.mp h
      cases heq
      obtain ⟨hreply, rfl⟩ | hran :=
        Stepper.rejected_or_runs hhost.noted hhost.consistent hruns hperform
      · exact .inl ⟨hreply, rfl⟩
      · exact .inr hran
  | wrap => cases hruns
  | unwrap => cases hruns

/-- An operation that runs nothing and is rejected changes nothing. -/
theorem eq_of_isRejection (hruns : operation.runs = false) (hreply : reply.isRejection = true)
    (h : host.perform fuel operation = some (reply, host')) : host' = host.rejected operation := by
  cases performed_of_perform h with
  | vm hperform =>
    rw [Debuggee.eq_of_isRejection hruns hreply hperform]
    cases host <;> rfl
  | debugger hperform =>
    rw [Debugger.not_isRejection hruns hperform] at hreply
    cases hreply
  | within hperform =>
    rw [Debugger.not_isRejection hruns hperform] at hreply
    cases hreply
  | stepper hperform =>
    rw [Stepper.not_isRejection hruns hperform] at hreply
    cases hreply
  | wrap => cases hreply
  | unwrap d => cases hreply
  | unavailable => cases hreply

/-- In every session of a fresh host at its own level: an operation that is rejected leaves the host
as it was, but that a debugger tells the subscribers of `activity` of a rejected call. An operation
that is not rejected and runs the debuggee does so by run requests, exactly one if it is a call or
resumes the debuggee. The reply states how the last one ended, and the debuggee is left as that one
left it. The consumer of halts, if there is one, hears of each of them once, by an event that agrees
with its answer and with the debuggee after it. -/
theorem Session.rejected_or_heard {failed : Bool} (hfresh : start.IsFresh)
    (hsession : Session start.level.Permits start failed host)
    (hpermits : start.level.Permits operation)
    (h : host.perform fuel operation = some (reply, host')) :
    (reply.isRejection = true → host' = host.rejected operation) ∧
      (reply.isRejection = false → operation.runs = true →
        ∃ runs last events, host.vm.Serves (runs ++ [last]) host'.vm ∧
          (operation.runsOnce = true → runs = []) ∧
          reply.States host'.vm last.answer ∧ Debuggee.SameCall last.vm host'.vm ∧
          List.Forall₂ (fun run event => HaltEvent.Describes event run.answer run.vm)
            (runs ++ [last]) events ∧
          host'.vm.halts =
            if host.vm.hasHandler then host.vm.halts ++ events.toArray else host.vm.halts) := by
  obtain ⟨hhost, hlevel⟩ := hsession.inOrder hfresh
  rw [← hlevel] at hpermits
  constructor
  · intro hreply
    cases hruns : operation.runs with
    | false => exact eq_of_isRejection hruns hreply h
    | true =>
      obtain ⟨-, hkept⟩ | hran := hhost.rejected_or_runs hpermits hruns h
      · exact hkept
      · rw [hran.not_isRejection hhost.consistent] at hreply
        cases hreply
  · intro hreply hruns
    obtain ⟨hrejection, -⟩ | ⟨runs, last, hserves, hstates, honce⟩ :=
      hhost.rejected_or_runs hpermits hruns h
    · rw [hreply] at hrejection
      cases hrejection
    · obtain ⟨-, events, hdescribed, hhalts⟩ := hserves.heard
      exact ⟨runs, last, events, hserves, honce, hstates,
        hserves.sameCall_last List.getLast?_concat, hdescribed, hhalts⟩

end Host

/-- A stepper over a debuggee with a consumer of halts, halted on the addition of a sum. -/
def Stepper.heardAddition : Stepper :=
  let s := (Host.watchedStepper {}).withVm ({} : Debuggee).setHandler.2
  match ((s.load .sum).set ⟨0, 2⟩).call 9 "sum" #[] with
  | some (_, s) => s
  | none => s

theorem Host.Session.heardAddition :
    Session Level.stepper.Permits (.stepper (watchedStepper {})) false
      (.stepper .heardAddition) := by
  have hnew : Session Level.stepper.Permits (.stepper (watchedStepper {})) false
      (.stepper (watchedStepper {})) := .new
  have hhandler := hnew.perform (show Level.stepper.Permits (.vm .setHandler) from rfl)
    (show Host.perform 0 _ (.vm .setHandler) = some _ from rfl)
  have hloaded := hhandler.perform (by exact trivial)
    (show Host.perform 0 _ (.stepper (.load .sum)) = some _ from rfl)
  have hset := hloaded.perform (by exact trivial)
    (show Host.perform 0 _ (.stepper (.set ⟨0, 2⟩)) = some _ from rfl)
  exact hset.perform (by exact trivial)
    (show Host.perform 9 _ (.stepper (.call "sum" #[])) =
      some (.stopped .paused, .stepper .heardAddition) from rfl)

/-- A second call is rejected and changes nothing. Asked to go on, the stepper issues two run
requests, and the consumer of halts hears of the step to the last instruction and of the end of the
call. -/
theorem Host.Session.rejected_or_heard_sum :
    (Host.stepper .heardAddition).perform 9 (.stepper (.call "sum" #[])) =
        some (.failed (.run .alreadyRunning), .stepper .heardAddition) ∧
      ∃ host' runs last,
        (Host.stepper .heardAddition).perform 9 (.stepper (.start .proceed)) =
          some (.flag true, host') ∧
        Stepper.heardAddition.vm.Serves (runs ++ [last]) host'.vm ∧
        List.Forall₂ (fun run event => HaltEvent.Describes event run.answer run.vm)
          (runs ++ [last]) [.paused ⟨⟨0⟩, 0, 3⟩, .finished 3] := by
  have hfresh : (Host.stepper (watchedStepper {})).IsFresh :=
    ⟨⟨⟨rfl, rfl, rfl⟩, rfl, rfl, rfl, rfl⟩, rfl⟩
  constructor
  · obtain ⟨host', hcall⟩ : ∃ host', (Host.stepper .heardAddition).perform 9
        (.stepper (.call "sum" #[])) = some (.failed (.run .alreadyRunning), host') := ⟨_, rfl⟩
    have hkept := (Session.rejected_or_heard hfresh .heardAddition (by exact trivial) hcall).1 rfl
    rw [hcall, hkept]
    rfl
  · obtain ⟨host', hstart, hhalts⟩ : ∃ host', (Host.stepper .heardAddition).perform 9
        (.stepper (.start .proceed)) = some (.flag true, host') ∧
        host'.vm.halts = #[.paused ⟨⟨0⟩, 0, 2⟩] ++ #[.paused ⟨⟨0⟩, 0, 3⟩, .finished 3] :=
      ⟨_, rfl, by decide +kernel⟩
    obtain ⟨runs, last, events, hserves, -, -, -, hdescribed, hheard⟩ :=
      (Session.rejected_or_heard hfresh .heardAddition (by exact trivial) hstart).2 rfl rfl
    have hbefore : Stepper.heardAddition.vm.halts = #[.paused ⟨⟨0⟩, 0, 2⟩] := by decide +kernel
    have hhandler : (Host.stepper .heardAddition).vm.hasHandler = true := by decide +kernel
    have hevents : events = [.paused ⟨⟨0⟩, 0, 3⟩, .finished 3] := by
      rw [hhandler, if_pos rfl, show (Host.stepper .heardAddition).vm.halts = _ from hbefore,
        hhalts] at hheard
      simpa using (congrArg Array.toList hheard).symm
    rw [hevents] at hdescribed
    exact ⟨host', runs, last, hstart, hserves, hdescribed⟩

end BytecodeDebugger
