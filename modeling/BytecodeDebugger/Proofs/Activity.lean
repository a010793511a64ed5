import BytecodeDebugger.Proofs.CallStack
import BytecodeDebugger.Proofs.FailedRuns
import BytecodeDebugger.Proofs.StepperProtocol

/-!
# What a debugger says of its activity

The subscribers of `activity` hear that a call starts, and that it is over when it returned or was
answered by an error. They hear nothing when a halted call fails in a later command, nor when it is
dropped because a program is loaded; and a call that is rejected because another one is halted is
announced and taken back, as if the halted one were over.

## Implementation notes

`misleads` follows from the answers of a session whether the subscribers are wrong. It is exact:
when they already are, a failure makes what they heard last true again, by accident.
-/

namespace BytecodeDebugger

/-- What a subscriber heard last. One that heard nothing takes it that nothing is active. -/
def Channel.lastHeard (c : Channel Bool) (subscriber : Nat) : Bool :=
  (c.heard subscriber).getLast?.getD false

theorem Channel.lastHeard_notify (c : Channel Bool) {subscriber : Nat}
    (h : subscriber < c.subscribers) (value : Bool) :
    (c.notify value).lastHeard subscriber = value := by
  rw [lastHeard, heard_notify c h, List.getLast?_concat]
  rfl

namespace Debugger

variable {d d' start : Debugger} {fuel : Nat} {misled : Bool}

/-- Whether the subscribers of a debugger are wrong about its activity after a halted call ended so,
or went on. -/
def misledBy (misled : Bool) : Option Ending → Bool
  | none => misled
  | some (.returned _) => false
  | some (.faulted _ _) => !misled

/-- Whether the subscribers of a debugger are wrong about its activity after an operation, which was
answered so, from whether a call was halted and whether they were wrong before. -/
def misleads (halted misled : Bool) : DebuggerOperation → Reply → Bool
  | .call _ _, _ => halted
  | .load _, _ => halted ^^ misled
  | _, reply => misledBy misled reply.ending?

/-- The debuggers that a session can come to. The flag says whether the subscribers are wrong about
the activity. -/
inductive Watched (start : Debugger) : Bool → Debugger → Prop
  | new : Watched start false start
  | perform {misled : Bool} {d d' : Debugger} {fuel : Nat} {operation : DebuggerOperation}
      {reply : Reply} (before : Watched start misled d)
      (h : d.perform fuel operation = some (reply, d')) :
      Watched start (misleads d.vm.isPaused misled operation reply) d'

/-- What every subscriber heard last of the activity is true, unless they are wrong. -/
def Tells (misled : Bool) (d : Debugger) : Prop :=
  ∀ i < d.activity.subscribers, d.activity.lastHeard i = (d.vm.isPaused ^^ misled)

/-- What tells the subscribers nothing of the activity leaves what they know as it is. -/
theorem Tells.of_activity {misled' : Bool} (h : d.Tells misled)
    (hactivity : d'.activity = d.activity)
    (hright : (d'.vm.isPaused ^^ misled') = (d.vm.isPaused ^^ misled)) : d'.Tells misled' := by
  intro i hi
  rw [hactivity] at hi ⊢
  rw [h i hi, hright]

/-- What the subscribers are told is what they heard last. -/
theorem tells_of_notify {c : Channel Bool} {value misled' : Bool}
    (hactivity : d'.activity = c.notify value) (hright : value = (d'.vm.isPaused ^^ misled')) :
    d'.Tells misled' := by
  intro i hi
  rw [hactivity] at hi ⊢
  rw [c.lastHeard_notify hi, hright]

/-! ## One operation -/

theorem activity_load (d : Debugger) (program : Program) :
    (d.load program).2.activity = d.activity := by
  let loaded : Debugger := { d with vm := (d.vm.load program).2 }
  let relocated := d.lineBreakpoints.keys.foldl relocate loaded
  have hrelocated : relocated.activity = loaded.activity :=
    List.foldlRecOn (motive := fun e : Debugger => e.activity = loaded.activity) _ _ rfl
      fun e he line _ => he
  exact relocated.touched_rearmAll.activity.trans hrelocated

theorem Tells.load (h : d.Tells misled) (program : Program) :
    (d.load program).2.Tells (d.vm.isPaused ^^ misled) := by
  apply h.of_activity (d.activity_load program)
  have hdropped : (d.load program).2.vm.isPaused = false := (d.sameCall_load program).isPaused
  rw [hdropped, Bool.false_xor]

/-- A call is announced. Only a call that is rejected because another one is halted misleads the
subscribers, and any other call puts right what they know. -/
theorem tells_call {name : String} {args : Array Int32} {answer : Except DebugError Stop}
    (h : d.call fuel name args = some (answer, d')) : d'.Tells d.vm.isPaused := by
  obtain ⟨run, hcall, hended⟩ := call_eq_some h
  obtain ⟨hvm, error, rfl⟩ | ⟨hidle, -, hrest⟩ := Debuggee.call_rest hcall
  · obtain ⟨hrun, -⟩ | ⟨value, hrun, -⟩ | ⟨_, -, -, heq⟩ := hended
    · cases hrun
    · cases hrun
    · have hactivity : d'.activity = (d.activity.notify true).notify false :=
        congrArg Debugger.activity heq
      apply tells_of_notify hactivity
      rw [hvm, Bool.xor_self]
  · rw [hidle]
    obtain ⟨rfl, place, hplace⟩ | ⟨hanswer, hover⟩ := hrest
    · obtain ⟨-, -, hactivity⟩ | ⟨value, hrun, -⟩ | ⟨error, hrun, -⟩ := hended
      · apply tells_of_notify hactivity
        rw [(Debuggee.isPaused_of_haltedAt? hplace).1]
        rfl
      · cases hrun
      · cases hrun
    · obtain ⟨hrun, -⟩ | ⟨value, -, -, hactivity⟩ | ⟨error, -, -, heq⟩ := hended
      · exact absurd hrun hanswer
      · apply tells_of_notify hactivity
        rw [hover]
        rfl
      · have hactivity : d'.activity = (d.activity.notify true).notify false :=
          congrArg Debugger.activity heq
        apply tells_of_notify hactivity
        rw [hover]
        rfl

/-- An operation that neither loads nor calls misleads by its answer only. -/
theorem misleads_of_not_startsOver {operation : DebuggerOperation}
    (h : (Operation.debugger operation).startsOver = false) (halted misled : Bool) (reply : Reply) :
    misleads halted misled operation reply = misledBy misled reply.ending? := by
  cases operation <;> first | rfl | cases h

/-- A command tells the subscribers when the call returned, and not when it failed. -/
theorem Tells.commanded {answer : Except DebugError StepOutcome} (h : d.Tells misled)
    (hd : d.vm.Consistent) (hcommanded : d.Commanded answer d') :
    d'.Tells (misledBy misled (Reply.ofDebug .stepped answer).ending?) := by
  cases hcommanded with
  | rejected command hidle => exact h
  | @served _ e hran =>
    obtain ⟨last, hlast, hstates⟩ := hran.vm
    have hpaused := hran.paused
    match answer with
    | .ok (.paused frame onBreakpoint) =>
      have hhalted := isPaused_of_pausedFrame? hran.pausedFrame?
      have hactivity : (e.told (.ok (.paused frame onBreakpoint))).activity = d.activity :=
        hran.activity
      apply h.of_activity hactivity
      rw [vm_told, hhalted, hpaused]
      rfl
    | .ok (.finished value) =>
      cases hstates
      obtain ⟨hanswer, -⟩ | ⟨-, hover⟩ := hlast.rest
      · cases hanswer
      · apply tells_of_notify (show (e.told _).activity = e.activity.notify false from rfl)
        rw [vm_told, hover]
        rfl
    | .error error =>
      cases hstates
      obtain ⟨place, fault, rfl⟩ := hlast.eq_fault hd
      obtain ⟨hanswer, -⟩ | ⟨-, hover⟩ := hlast.rest
      · cases hanswer
      · have hactivity : (e.told (.error (.run (.fault place fault)))).activity = d.activity :=
          hran.activity
        apply h.of_activity hactivity
        rw [vm_told, hover, hpaused, Bool.false_xor, Bool.true_xor]
        rfl

theorem Tells.perform {operation : DebuggerOperation} {reply : Reply} (h : d.Tells misled)
    (hd : d.vm.Consistent) (hperform : d.perform fuel operation = some (reply, d')) :
    d'.Tells (misleads d.vm.isPaused misled operation reply) := by
  cases hstarts : (Operation.debugger operation).startsOver with
  | true =>
    cases operation <;> cases hstarts
    · cases hperform
      exact h.load _
    · obtain ⟨⟨answer, e⟩, hcall, heq⟩ := Option.map_eq_some_iff.mp hperform
      cases heq
      exact tells_call hcall
  | false =>
    rw [misleads_of_not_startsOver hstarts]
    cases hmoves : (Operation.debugger operation).movesOn with
    | true =>
      obtain ⟨answer, rfl, hcommanded⟩ := commanded_perform hmoves hperform
      exact h.commanded hd hcommanded
    | false =>
      have hquiet : (Operation.debugger operation).isQuiet = true := by
        rw [Operation.isQuiet, hstarts, hmoves]
        rfl
      have htouched := touched_perform hquiet hperform
      rw [(quiet_perform hquiet hperform).2]
      apply h.of_activity htouched.activity
      rw [htouched.vm.sameCall_of_nil.isPaused]
      rfl

/-! ## Sessions -/

theorem Watched.consistent (hnew : start.IsNew) (h : Watched start misled d) :
    d.vm.Consistent := by
  induction h with
  | new =>
    rw [hnew.vm]
    exact Debuggee.consistent_new
  | perform before hperform ih => exact ih.of_leads (leads_perform hperform)

/-- The run lemma. -/
theorem Watched.tells (hnew : start.IsNew) (hlog : start.activity.log = #[])
    (h : Watched start misled d) : d.Tells misled := by
  induction h with
  | new =>
    intro i _
    have hheard : start.activity.heard i = [] := by
      rw [Channel.heard, hlog]
      rfl
    rw [Channel.lastHeard, hheard, hnew.vm]
    rfl
  | perform before hperform ih => exact ih.perform (before.consistent hnew) hperform

/-- After every operation of a session over a new debugger, what a subscriber heard last of the
activity is whether a call is halted, exactly if the subscribers are not misled: since the last call
that was not rejected for a halted one, no halted call was called over, dropped by loading a program
or failed, or such a mistake was undone by the end of the call or by a second mistake. -/
theorem Watched.activity_mirrored_iff (hnew : start.IsNew) (hlog : start.activity.log = #[])
    (h : Watched start misled d) {subscriber : Nat}
    (hsubscriber : subscriber < d.activity.subscribers) :
    d.activity.lastHeard subscriber = d.vm.isPaused ↔ misled = false := by
  rw [h.tells hnew hlog subscriber hsubscriber]
  cases d.vm.isPaused <;> simp

/-- A debugger with a subscriber on each channel, halted before the division of a quotient. -/
def beforeDivision : Debugger :=
  match (((Host.watchedDebugger {}).load .quotient).2.set ⟨0, 1⟩).call 9 "quotient" #[] with
  | some (_, d) => d
  | none => {}

theorem Watched.beforeDivision : Watched (Host.watchedDebugger {}) false beforeDivision := by
  have hloaded : Watched (Host.watchedDebugger {}) false
      ((Host.watchedDebugger {}).load .quotient).2 :=
    Watched.new.perform
      (show (Host.watchedDebugger {}).perform 0 (.load .quotient) = some _ from rfl)
  have hset : Watched (Host.watchedDebugger {}) false
      (((Host.watchedDebugger {}).load .quotient).2.set ⟨0, 1⟩) :=
    hloaded.perform (show Debugger.perform 0 _ (.set ⟨0, 1⟩) = some _ from rfl)
  exact hset.perform (show Debugger.perform 9 _ (.call "quotient" #[]) =
    some (.stopped .paused, Debugger.beforeDivision) from rfl)

/-- The subscriber heard that the halted call started, and that is how it is. -/
theorem Watched.activity_mirrored_iff_quotient :
    Debugger.beforeDivision.vm.isPaused = true ∧
      Debugger.beforeDivision.activity.lastHeard 0 = true := by
  have hpaused : Debugger.beforeDivision.vm.isPaused = true := by decide +kernel
  refine ⟨hpaused, ?_⟩
  rw [← hpaused]
  exact (Watched.activity_mirrored_iff ⟨rfl, rfl, rfl⟩ rfl .beforeDivision
    (show 0 < Debugger.beforeDivision.activity.subscribers by decide +kernel)).mpr rfl

/-- From there, what the subscriber heard last is wrong after the call failed in a command, after
another call was rejected, and after a program was loaded. -/
theorem Watched.mistaken_quotient :
    Watched (Host.watchedDebugger {}) false Debugger.beforeDivision ∧
      (∃ d, Debugger.beforeDivision.perform 9 .proceed =
          some (.failed (.run (.fault ⟨0, 2⟩ .divisionByZero)), d) ∧
        d.vm.isPaused = false ∧ d.activity.lastHeard 0 = true) ∧
      (∃ d, Debugger.beforeDivision.perform 9 (.call "quotient" #[]) =
          some (.failed (.run .alreadyRunning), d) ∧
        d.vm.isPaused = true ∧ d.activity.lastHeard 0 = false) ∧
      ∃ d, Debugger.beforeDivision.perform 9 (.load .quotient) = some (.loaded ⟨1⟩, d) ∧
        d.vm.isPaused = false ∧ d.activity.lastHeard 0 = true := by
  refine ⟨.beforeDivision, ⟨_, rfl, ?_, ?_⟩, ⟨_, rfl, ?_, ?_⟩, _, rfl, ?_, ?_⟩ <;> decide +kernel

end Debugger

end BytecodeDebugger
