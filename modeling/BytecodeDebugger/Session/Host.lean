import BytecodeDebugger.Session.Operation

/-!
# Hosts

A session controls a debuggee alone, through a debugger or through a stepper, and can change between
these levels. Operations of a lower level reach the debuggee or debugger within.

## Implementation notes

Every debugger and every stepper of a session has one subscriber on each of its channels, so that
the events of an operation can be read off the logs.
-/

namespace BytecodeDebugger

/-- What a session controls the debuggee through. -/
inductive Host where
  | debuggee (vm : Debuggee)
  | debugger (d : Debugger)
  | stepper (s : Stepper)

/-- The operations of a session. -/
inductive Operation where
  | vm (operation : VmOperation)
  | debugger (operation : DebuggerOperation)
  | stepper (operation : StepperOperation)
  /-- Go one level up. -/
  | wrap
  /-- Go from a debugger back to its debuggee. -/
  | unwrap

namespace Host

/-- A debugger with a subscriber on each channel. -/
def watchedDebugger (vm : Debuggee) : Debugger :=
  { vm, breaks := Channel.subscribe {}, activity := Channel.subscribe {} }

/-- A stepper with a subscriber on each channel. -/
def watchedStepper (d : Debugger) : Stepper :=
  let s := Stepper.ofDebugger d
  { s with breaks := s.breaks.subscribe, pauses := s.pauses.subscribe }

/-- The debuggee under control. -/
def vm : Host → Debuggee
  | .debuggee vm => vm
  | .debugger d => d.vm
  | .stepper s => s.debugger.vm

/-- The debugger in use, if there is one. -/
def debugger? : Host → Option Debugger
  | .debuggee _ => none
  | .debugger d => some d
  | .stepper s => some s.debugger

/-- The stepper in use, if there is one. -/
def stepper? : Host → Option Stepper
  | .stepper s => some s
  | _ => none

/-- Replaces the debuggee under control. -/
def withVm (vm : Debuggee) : Host → Host
  | .debuggee _ => .debuggee vm
  | .debugger d => .debugger { d with vm }
  | .stepper s => .stepper (s.withVm vm)

/-- The host one level up. -/
def wrap : Host → Host
  | .debuggee vm => .debugger (watchedDebugger vm)
  | .debugger d => .stepper (watchedStepper d)
  | .stepper s => .stepper s

/-- Serves an operation; no answer means that a run request of it had none. -/
def perform (fuel : Nat) (host : Host) : Operation → Option (Reply × Host)
  | .vm operation =>
    (host.vm.perform fuel operation).map fun (reply, vm) => (reply, host.withVm vm)
  | .debugger operation =>
    match host with
    | .debuggee _ => some (.unavailable, host)
    | .debugger d => (d.perform fuel operation).map fun (reply, d) => (reply, .debugger d)
    | .stepper s =>
      (s.debugger.perform fuel operation).map fun (reply, d) =>
        (reply, .stepper { s with debugger := d })
  | .stepper operation =>
    match host with
    | .stepper s => (s.perform fuel operation).map fun (reply, s) => (reply, .stepper s)
    | _ => some (.unavailable, host)
  | .wrap => some (.done, host.wrap)
  | .unwrap =>
    match host with
    | .debugger d => some (.done, .debuggee d.vm)
    | _ => some (.unavailable, host)

end Host

end BytecodeDebugger
