import BytecodeDebugger.Debugger.Basic
import BytecodeDebugger.Stepper.Plan

/-!
# Stepping one halt at a time

A stepper serves a stepping command by a plan: it asks the plan for a request, runs the debuggee on
its behalf and asks again, until the plan is done. A breakpoint always wins: a plan whose request
ended on one is over.

## Implementation notes

The halts of a command are the business of its plan, and the command's answer says that it is done.
The subscribers of `breaks` hear of a halt that no plan asked for, such as the first halt of a call.

`drive` and the requests it issues share the bound `fuel`; no answer means that it was reached, or
that the process was stopped.
-/

namespace BytecodeDebugger

/-- How far the last command of a stepper has come. -/
inductive PlanState where
  /-- There was none. -/
  | idle
  /-- It was accepted and has issued no request. -/
  | starting
  /-- It has issued a request. -/
  | active
  /-- It is over. -/
  | completed
  deriving DecidableEq, Inhabited

namespace PlanState

/-- The name of a plan state. -/
def text : PlanState → String
  | .idle => "Idle"
  | .starting => "Starting"
  | .active => "Active"
  | .completed => "Completed"

end PlanState

/-- A debugger that serves stepping commands by plans. -/
structure Stepper where
  debugger : Debugger
  /-- The command in progress. -/
  plan : Option Plan := none
  state : PlanState := .idle
  /-- Whether the debuggee is halted at a place where a patched trap stood. -/
  onBreakpoint : Bool := false
  /-- Whether a call is halted, as far as the subscribers know. -/
  paused : Bool
  /-- Hears of halts that no plan asked for. -/
  breaks : Channel FrameInfo := {}
  /-- Hears of every change of `paused`. -/
  pauses : Channel Bool := {}
  deriving DecidableEq, Inhabited

namespace Stepper

/-- The answer to a request, with the stepper after it; none if it is not answered. -/
abbrev Answer (α : Type) := Option (Except DebugError α × Stepper)

/-- A stepper over a debugger. -/
def ofDebugger (debugger : Debugger) : Stepper :=
  { debugger, paused := debugger.vm.isPaused }

/-- The debuggee under control. -/
def vm (s : Stepper) : Debuggee :=
  s.debugger.vm

/-- Replaces the debuggee under control. -/
def withVm (s : Stepper) (vm : Debuggee) : Stepper :=
  { s with debugger := { s.debugger with vm } }

/-- Switches stepping mode of the debuggee. -/
def setStepping (s : Stepper) (on : Bool) : Stepper :=
  { s with debugger := s.debugger.setStepping on }

/-- Records whether a call is halted and tells the subscribers if that is new. -/
def setPaused (s : Stepper) (paused : Bool) : Stepper :=
  if s.paused = paused then s else { s with paused, pauses := s.pauses.notify paused }

/-- Loads a program and forgets the command in progress. -/
def load (s : Stepper) (program : Program) : Stepper :=
  { s with
    debugger := (s.debugger.load program).2
    plan := none
    onBreakpoint := false }.setPaused false

/-- Sets a breakpoint. -/
def set (s : Stepper) (place : Location) : Stepper :=
  { s with debugger := s.debugger.set place }

/-- Removes a breakpoint. -/
def remove (s : Stepper) (place : Location) : Stepper :=
  { s with debugger := s.debugger.remove place }

/-- Makes the next run request execute one instruction only. -/
def pause (s : Stepper) : Stepper :=
  s.setStepping true

/-- What a plan sees of the debuggee. -/
def observe (s : Stepper) : Observation :=
  let frame := if s.vm.isPaused then s.vm.frameInfo? 0 else none
  { frame
    depth := s.vm.depth
    span := frame.bind s.debugger.span?
    hitBreakpoint := s.onBreakpoint }

/-- Takes note of a halt: the instruction halted at is put back, and a breakpoint hit there makes
the next run request execute that instruction only. -/
def noteBreak (s : Stepper) : Stepper :=
  let s := s.setPaused true
  match s.vm.frameInfo? 0 with
  | none => s
  | some frame =>
    let (restored, debugger) := s.debugger.restoreFrame frame
    let s := { s with debugger, onBreakpoint := restored }
    if restored then s.setStepping true else s

/-- Takes note of the end of a call. -/
def noteFinished (s : Stepper) : Stepper :=
  { s with onBreakpoint := false }.setPaused false

/-- Takes note of a failed run request, which ended the call unless the call is still halted. -/
def noteError (s : Stepper) : Stepper :=
  if s.vm.isPaused then s else s.noteFinished

/-- Resumes the call. The answer says whether it halted again. -/
def resume (fuel : Nat) (s : Stepper) : Answer Bool :=
  let s := s.setPaused false
  (s.vm.resume fuel).map fun (answer, vm) =>
    let s := s.withVm vm
    match answer with
    | .ok .paused => (.ok true, s.noteBreak)
    | .ok (.finished _) => (.ok false, s.noteFinished)
    | .error error => (.error (.run error), s.noteError)

/-- Runs freely, if that is the request. -/
def runFreely (fuel : Nat) (request : Request) (s : Stepper) : Answer Unit :=
  match request with
  | .step => some (.ok (), s)
  | .proceed =>
    ((s.setStepping false).resume fuel).map fun (answer, s) => (answer.map fun _ => (), s)

/-- Patches the breakpoint of a frame again, if there is a frame. -/
def rearm (s : Stepper) (origin : Option FrameInfo) : Stepper :=
  match origin with
  | some frame => { s with debugger := s.debugger.rearm frame }
  | none => s

/-- Serves a request of a plan. From a breakpoint, and for a single step, one instruction is executed
and the location left is armed again. -/
def serve (fuel : Nat) (request : Request) (s : Stepper) : Answer Unit :=
  if s.onBreakpoint || request == .step then
    let origin := s.vm.frameInfo? 0
    match (s.setStepping true).resume fuel with
    | none => none
    | some (.error error, s) => some (.error error, s)
    | some (.ok halted, s) =>
      let s := s.rearm origin
      if !halted || s.onBreakpoint then some (.ok (), s) else s.runFreely fuel request
  else
    s.runFreely fuel request

/-- Ends the plan. A halt that it did not cause is passed to the subscribers. -/
def complete (starting : Bool) (frame : Option FrameInfo) (s : Stepper) : Stepper :=
  let s := if s.plan.isSome then { s with plan := none, state := .completed } else s
  match starting, frame with
  | false, some frame => { s with breaks := s.breaks.notify frame }
  | _, _ => s

/-- Asks the plan for its next request and serves it. The answer says whether there was one. -/
def advance (starting : Bool) (fuel : Nat) (s : Stepper) : Answer Bool :=
  let o := s.observe
  match s.plan with
  | none => some (.ok false, s.complete starting o.frame)
  | some plan =>
    match plan.next o with
    | (.done, _) => some (.ok false, s.complete starting o.frame)
    | (.request request, plan) =>
      let s := { s with plan := some plan, state := .active }
      (s.serve fuel request).map fun (answer, s) => (answer.map fun _ => true, s)

/-- Serves the requests of the plan, at most so many, until it is done. -/
def drive (starting : Bool) : Nat → Stepper → Answer Unit
  | 0, _ => none
  | fuel + 1, s =>
    match s.advance starting fuel with
    | none => none
    | some (.error error, s) => some (.error error, s)
    | some (.ok false, s) => some (.ok (), s)
    | some (.ok true, s) => drive starting fuel s

/-- Calls an exported routine. A halt is passed to the subscribers. -/
def call (fuel : Nat) (name : String) (args : Array Int32) (s : Stepper) : Answer Stop :=
  match s.vm.call fuel name args with
  | none => none
  | some (.ok .paused, vm) =>
    ((s.withVm vm).noteBreak.drive false fuel).map fun (answer, s) =>
      (answer.map fun _ => .paused, s)
  | some (.ok (.finished value), vm) => some (.ok (.finished value), (s.withVm vm).noteFinished)
  | some (.error error, vm) => some (.error (.run error), (s.withVm vm).noteError)

/-- Serves a command. The answer says whether it is over. -/
def start (fuel : Nat) (command : Command) (s : Stepper) : Answer Bool :=
  if s.vm.isPaused then
    let s := { s with plan := some { command }, state := .starting }
    (s.drive true fuel).map fun (answer, s) =>
      match answer with
      | .ok () => (.ok s.plan.isNone, s)
      | .error error => (.error error, { s with plan := none, state := .completed })
  else
    some (.error (.notPaused command), s)

end Stepper

end BytecodeDebugger
