import BytecodeDebugger.Proofs.Resumption
import BytecodeDebugger.Session.Host

/-!
# Sessions

A session is a list of operations that a host serves one after the other. Operations fall into those
that load a program or begin a call, those that move a halted call on, and the quiet ones, which run
nothing.

## Implementation notes

Each operation of a session has a bound of its own. A session whose answer is none reached one of
them, so what is proved of the answers holds for every bound that suffices.
-/

namespace BytecodeDebugger

namespace Operation

/-- Whether an operation loads a program or calls a routine. -/
def startsOver : Operation → Bool
  | .vm (.load _) | .vm (.call _ _) => true
  | .debugger (.load _) | .debugger (.call _ _) => true
  | .stepper (.load _) | .stepper (.call _ _) => true
  | _ => false

/-- Whether an operation loads a program. -/
def loads : Operation → Bool
  | .vm (.load _) | .debugger (.load _) | .stepper (.load _) => true
  | _ => false

/-- Whether an operation moves a halted call on. -/
def movesOn : Operation → Bool
  | .vm .resume => true
  | .debugger .stepInto | .debugger .stepNext | .debugger .proceed => true
  | .stepper (.start _) => true
  | _ => false

/-- Whether an operation runs nothing. -/
def isQuiet (operation : Operation) : Bool :=
  !operation.startsOver && !operation.movesOn

theorem eq_resume_of_movesOn {operation : VmOperation}
    (h : (Operation.vm operation).movesOn = true) : operation = .resume := by
  cases operation <;> cases h
  rfl

theorem cases_of_movesOn {operation : DebuggerOperation}
    (h : (Operation.debugger operation).movesOn = true) :
    operation = .stepInto ∨ operation = .stepNext ∨ operation = .proceed := by
  cases operation <;> cases h <;> simp

theorem exists_start_of_movesOn {operation : StepperOperation}
    (h : (Operation.stepper operation).movesOn = true) :
    ∃ command, operation = .start command := by
  cases operation <;> cases h
  exact ⟨_, rfl⟩

end Operation

namespace Reply

/-- The end of a call that a reply states. -/
def ending? : Reply → Option Ending
  | .stopped (.finished value) => some (.returned value)
  | .stepped (.finished value) => some (.returned value)
  | .runFailed (.fault place fault) => some (.faulted place fault)
  | .failed (.run (.fault place fault)) => some (.faulted place fault)
  | _ => none

/-- Whether a reply states that a run failed. -/
def isFault (reply : Reply) : Bool :=
  match reply.ending? with
  | some (.faulted _ _) => true
  | _ => false

theorem ending?_failed (error : DebugError) : (Reply.failed error).ending? = error.ending? := by
  cases error with
  | notPaused command => rfl
  | run error => cases error <;> rfl

end Reply

/-- An operation of a session, with the reply to it and the host after it. -/
structure Record where
  operation : Operation
  reply : Reply
  host : Host

namespace Record

/-- The end of a call that an operation reports. A stepping command of a stepper is answered by a
flag, and whether it ended the call is read off the debuggee. -/
def ending? (r : Record) : Option Ending :=
  match r.operation, r.reply with
  | .stepper (.start _), .flag _ =>
    if r.host.vm.isPaused then none else some (.returned r.host.vm.returnValue)
  | _, reply => reply.ending?

/-- Operations that do not move a call on report what their reply states. -/
theorem ending?_eq {r : Record} (h : r.operation.movesOn = false) : r.ending? = r.reply.ending? := by
  rw [ending?]
  split
  · rename_i hoperation hreply
    rw [hoperation] at h
    cases h
  · rfl

end Record

namespace Host

/-- The record of the operations that a host serves one after the other, each within its own bound;
none if one of them is not answered. -/
def serve (host : Host) : List (Nat × Operation) → Option (List Record)
  | [] => some []
  | (fuel, operation) :: rest =>
    match host.perform fuel operation with
    | none => none
    | some (reply, host) => (host.serve rest).map fun records => ⟨operation, reply, host⟩ :: records

/-- The hosts that a session of permitted operations can come to. The flag says whether a run has
failed since the last load. -/
inductive Session (permitted : Operation → Prop) (start : Host) : Bool → Host → Prop
  | new : Session permitted start false start
  | perform {failed : Bool} {host host' : Host} {fuel : Nat} {operation : Operation} {reply : Reply}
      (before : Session permitted start failed host) (hpermitted : permitted operation)
      (h : host.perform fuel operation = some (reply, host')) :
      Session permitted start (!operation.loads && (failed || reply.isFault)) host'

/-- What a host can do with an operation. -/
inductive Performed (fuel : Nat) : Host → Operation → Reply → Host → Prop
  /-- The debuggee within serves it. -/
  | vm {host : Host} {operation : VmOperation} {reply : Reply} {vm : Debuggee}
      (h : host.vm.perform fuel operation = some (reply, vm)) :
      Performed fuel host (.vm operation) reply (host.withVm vm)
  /-- The debugger serves it. -/
  | debugger {d d' : Debugger} {operation : DebuggerOperation} {reply : Reply}
      (h : d.perform fuel operation = some (reply, d')) :
      Performed fuel (.debugger d) (.debugger operation) reply (.debugger d')
  /-- The debugger within the stepper serves it. -/
  | within {s : Stepper} {d : Debugger} {operation : DebuggerOperation} {reply : Reply}
      (h : s.debugger.perform fuel operation = some (reply, d)) :
      Performed fuel (.stepper s) (.debugger operation) reply (.stepper { s with debugger := d })
  /-- The stepper serves it. -/
  | stepper {s s' : Stepper} {operation : StepperOperation} {reply : Reply}
      (h : s.perform fuel operation = some (reply, s')) :
      Performed fuel (.stepper s) (.stepper operation) reply (.stepper s')
  /-- The host goes one level up. -/
  | wrap (host : Host) : Performed fuel host .wrap .done host.wrap
  /-- A debugger is given up for its debuggee. -/
  | unwrap (d : Debugger) : Performed fuel (.debugger d) .unwrap .done (.debuggee d.vm)
  /-- The host has no such operation. -/
  | unavailable (host : Host) (operation : Operation) :
      Performed fuel host operation .unavailable host

theorem performed_of_perform {host host' : Host} {fuel : Nat} {operation : Operation} {reply : Reply}
    (h : host.perform fuel operation = some (reply, host')) :
    Performed fuel host operation reply host' := by
  cases operation with
  | vm operation =>
    obtain ⟨⟨answer, vm⟩, hperform, heq⟩ := Option.map_eq_some_iff.mp h
    cases heq
    exact .vm hperform
  | debugger operation =>
    cases host with
    | debuggee vm =>
      cases h
      exact .unavailable _ _
    | debugger d =>
      obtain ⟨⟨answer, e⟩, hperform, heq⟩ := Option.map_eq_some_iff.mp h
      cases heq
      exact .debugger hperform
    | stepper s =>
      obtain ⟨⟨answer, e⟩, hperform, heq⟩ := Option.map_eq_some_iff.mp h
      cases heq
      exact .within hperform
  | stepper operation =>
    cases host with
    | debuggee vm =>
      cases h
      exact .unavailable _ _
    | debugger d =>
      cases h
      exact .unavailable _ _
    | stepper s =>
      obtain ⟨⟨answer, t⟩, hperform, heq⟩ := Option.map_eq_some_iff.mp h
      cases heq
      exact .stepper hperform
  | wrap =>
    cases h
    exact .wrap host
  | unwrap =>
    cases host with
    | debuggee vm =>
      cases h
      exact .unavailable _ _
    | debugger d =>
      cases h
      exact .unwrap d
    | stepper s =>
      cases h
      exact .unavailable _ _

@[simp]
theorem vm_withVm (host : Host) (vm : Debuggee) : (host.withVm vm).vm = vm := by
  cases host <;> rfl

@[simp]
theorem vm_wrap (host : Host) : host.wrap.vm = host.vm := by
  cases host <;> rfl

/-- The debuggee under control is that of the debugger in use. -/
theorem vm_of_debugger? {host : Host} {d : Debugger} (h : host.debugger? = some d) :
    d.vm = host.vm := by
  cases host <;> cases h <;> rfl

end Host

/-- A debugger that was just put over a debuggee that was just made. Its channels may have any
subscribers. -/
structure Debugger.IsNew (d : Debugger) : Prop where
  vm : d.vm = {}
  breakpoints : d.breakpoints = ∅
  lineBreakpoints : d.lineBreakpoints = ∅

/-- A stepper that was just put over such a debugger. -/
structure Stepper.IsNew (s : Stepper) : Prop where
  debugger : s.debugger.IsNew
  plan : s.plan = none
  state : s.state = .idle
  onBreakpoint : s.onBreakpoint = false
  paused : s.paused = false

namespace Debuggee

theorem sameCall_setHandler (vm : Debuggee) : SameCall vm vm.setHandler.2 := by
  rw [setHandler]
  split <;> exact ⟨rfl, rfl, rfl, rfl, rfl⟩

/-- A quiet operation leaves the call alone, and states no end of it. -/
theorem quiet_perform {vm vm' : Debuggee} {fuel : Nat} {operation : VmOperation} {reply : Reply}
    (hquiet : (Operation.vm operation).isQuiet = true)
    (h : vm.perform fuel operation = some (reply, vm')) :
    SameCall vm vm' ∧ reply.ending? = none := by
  cases operation with
  | load program => cases hquiet
  | call name args => cases hquiet
  | resume => cases hquiet
  | setStepping on =>
    cases h
    exact ⟨sameCall_setStepping vm on, rfl⟩
  | setHandler =>
    cases h
    refine ⟨sameCall_setHandler vm, ?_⟩
    cases vm.hasHandler <;> rfl
  | clearHandler =>
    cases h
    exact ⟨⟨rfl, rfl, rfl, rfl, rfl⟩, rfl⟩

end Debuggee

namespace Debugger

/-- A quiet operation leaves the call alone, and states no end of it. -/
theorem quiet_perform {d d' : Debugger} {fuel : Nat} {operation : DebuggerOperation}
    {reply : Reply} (hquiet : (Operation.debugger operation).isQuiet = true)
    (h : d.perform fuel operation = some (reply, d')) :
    Debuggee.SameCall d.vm d'.vm ∧ reply.ending? = none := by
  cases operation with
  | load program => cases hquiet
  | call name args => cases hquiet
  | stepInto => cases hquiet
  | stepNext => cases hquiet
  | proceed => cases hquiet
  | set place =>
    cases h
    exact ⟨d.sameCall_set place, rfl⟩
  | remove place =>
    cases h
    exact ⟨d.sameCall_remove place, rfl⟩
  | setLine line =>
    cases h
    exact ⟨d.sameCall_setLine line, rfl⟩
  | removeLine line =>
    cases h
    exact ⟨d.sameCall_removeLine line, rfl⟩
  | patch place =>
    cases h
    exact ⟨d.vm.sameCall_patch place, rfl⟩
  | restoreFrame frame =>
    cases h
    exact ⟨d.sameCall_restoreFrame frame, rfl⟩
  | rearm frame =>
    cases h
    exact ⟨d.sameCall_rearm frame, rfl⟩
  | rearmAll =>
    cases h
    exact ⟨d.sameCall_rearmAll, rfl⟩
  | pause =>
    cases h
    exact ⟨d.vm.sameCall_setStepping true, rfl⟩

end Debugger

namespace Stepper

/-- A quiet operation leaves the call alone, and states no end of it. -/
theorem quiet_perform {s s' : Stepper} {fuel : Nat} {operation : StepperOperation}
    {reply : Reply} (hquiet : (Operation.stepper operation).isQuiet = true)
    (h : s.perform fuel operation = some (reply, s')) :
    Debuggee.SameCall s.vm s'.vm ∧ reply.ending? = none := by
  cases operation with
  | load program => cases hquiet
  | call name args => cases hquiet
  | start command => cases hquiet
  | set place =>
    cases h
    exact ⟨s.debugger.sameCall_set place, rfl⟩
  | remove place =>
    cases h
    exact ⟨s.debugger.sameCall_remove place, rfl⟩
  | pause =>
    cases h
    exact ⟨s.vm.sameCall_setStepping true, rfl⟩

end Stepper

namespace Host

/-- A quiet operation leaves the call alone, and states no end of it. -/
theorem quiet_perform {host host' : Host} {fuel : Nat} {operation : Operation} {reply : Reply}
    (hquiet : operation.isQuiet = true) (h : host.perform fuel operation = some (reply, host')) :
    Debuggee.SameCall host.vm host'.vm ∧ reply.ending? = none := by
  cases performed_of_perform h with
  | vm hperform =>
    rw [vm_withVm]
    exact Debuggee.quiet_perform hquiet hperform
  | debugger hperform => exact Debugger.quiet_perform hquiet hperform
  | within hperform => exact Debugger.quiet_perform hquiet hperform
  | stepper hperform => exact Stepper.quiet_perform hquiet hperform
  | wrap =>
    rw [vm_wrap]
    exact ⟨.refl host.vm, rfl⟩
  | unwrap d => exact ⟨.refl d.vm, rfl⟩
  | unavailable => exact ⟨.refl host.vm, rfl⟩

end Host

end BytecodeDebugger
