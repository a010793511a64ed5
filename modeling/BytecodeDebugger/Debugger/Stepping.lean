import BytecodeDebugger.Debugger.Basic

/-!
# Stepping within one request

The commands of a debugger that run the debuggee until they are done. Each of them first executes
the instruction the debuggee is halted at, without the trap that may stand there, and rearms that
location afterwards. Where the debuggee halts next, the displaced instruction is put back, so that
the next command can go on from there.

## Implementation notes

`stepNext` runs over a call by a temporary trap on the next span of the calling routine, or on its
last instruction. It is taken out again however the run ended.

A command without an answer reached the bound `fuel`, or the process was stopped.
-/

namespace BytecodeDebugger

/-- Where a command left the debuggee. -/
inductive StepOutcome where
  /-- Halted; `onBreakpoint` says that a patched trap stood there. -/
  | paused (frame : FrameInfo) (onBreakpoint : Bool)
  /-- The call returned this value. -/
  | finished (value : Int32)
  deriving DecidableEq

namespace Debugger

/-- The answer to a request, with the debugger after it; none if it is not answered. -/
abbrev Answer (α : Type) := Option (Except DebugError α × Debugger)

/-- Calls an exported routine. Where the call halts, a patched trap is left in place. -/
def call (fuel : Nat) (name : String) (args : Array Int32) (d : Debugger) : Answer Stop :=
  let started := { d with activity := d.activity.notify true }
  (started.vm.call fuel name args).map fun (answer, vm) =>
    let d := { started with vm }
    match answer with
    | .ok .paused =>
      (.ok .paused,
        match vm.frameInfo? 0 with
        | some frame => { d with breaks := d.breaks.notify frame }
        | none => d)
    | .ok (.finished value) =>
      (.ok (.finished value), { d with activity := d.activity.notify false })
    | .error error => (.error (.run error), { d with activity := d.activity.notify false })

/-- The frame at which a call is halted. -/
def pausedFrame? (d : Debugger) : Option FrameInfo :=
  if d.vm.isPaused then d.vm.frameInfo? 0 else none

/-- Resumes the call and puts the instruction back that it halts at. -/
def resume (fuel : Nat) (d : Debugger) : Answer StepOutcome :=
  (d.vm.resume fuel).map fun (answer, vm) =>
    let d := { d with vm }
    match answer with
    | .error error => (.error (.run error), d)
    | .ok (.finished value) => (.ok (.finished value), d)
    | .ok .paused =>
      match vm.frameInfo? 0 with
      | none => (.error (.run .notPaused), d)
      | some frame =>
        let (restored, d) := d.restoreFrame frame
        (.ok (.paused frame restored), d)

/-- Executes one instruction. -/
def stepInstruction (fuel : Nat) (d : Debugger) : Answer StepOutcome :=
  match d.pausedFrame? with
  | none => some (.error (.notPaused .single), d)
  | some origin =>
    (((d.restoreFrame origin).2.setStepping true).resume fuel).map fun (answer, d) =>
      match answer with
      | .error error => (.error error, d)
      | .ok outcome => (.ok outcome, d.rearm origin)

/-- Whether stepping ends here: the call ended, or there is a breakpoint or a span. -/
def isStopPoint (d : Debugger) : StepOutcome → Bool
  | .finished _ => true
  | .paused frame onBreakpoint =>
    onBreakpoint || d.hasBreakpoint frame.location || (d.span? frame).isSome

/-- Executes instructions, at most so many, until stepping ends. -/
def stepToStopPoint : Nat → Debugger → Answer StepOutcome
  | 0, _ => none
  | fuel + 1, d =>
    match d.stepInstruction fuel with
    | none => none
    | some (.error error, d) => some (.error error, d)
    | some (.ok outcome, d) =>
      if d.isStopPoint outcome then some (.ok outcome, d) else stepToStopPoint fuel d

/-- The location at which running over the call at `origin` ends. -/
def overTarget? (d : Debugger) (origin : FrameInfo) : Option Location :=
  (d.routine? origin).bind fun r =>
    match r.spanFrom? (origin.pc + 1) with
    | some (address, _) => some ⟨origin.function, address⟩
    | none => if r.code.size = 0 then none else some ⟨origin.function, r.code.size - 1⟩

/-- Runs on after the call at `origin` was entered, until its routine is reached again or a
breakpoint is hit. -/
def runOverCall (fuel : Nat) (origin : FrameInfo) (stepped : StepOutcome) (d : Debugger) :
    Answer StepOutcome :=
  match d.overTarget? origin with
  | none => some (.ok stepped, d)
  | some target =>
    let (installed, d) := d.rearmAll.patch target
    ((d.setStepping false).resume fuel).map fun (answer, d) =>
      (answer, if installed then (d.restore target).2 else d)

/-- Tells the subscribers where a command left the debuggee. -/
def report (d : Debugger) : StepOutcome → Debugger
  | .paused frame _ => { d with breaks := d.breaks.notify frame }
  | .finished _ => { d with activity := d.activity.notify false }

/-- Reports the outcome of a command that was served. -/
def reported (answer : Answer StepOutcome) : Answer StepOutcome :=
  answer.map fun
    | (.ok outcome, d) => (.ok outcome, d.report outcome)
    | (.error error, d) => (.error error, d)

/-- Steps to the next address that has a span or a breakpoint. -/
def stepInto (fuel : Nat) (d : Debugger) : Answer StepOutcome :=
  reported (d.stepToStopPoint fuel)

/-- Whether the instruction at a frame, as it was written, is a call. -/
def standsAtCall (d : Debugger) (frame : FrameInfo) : Bool :=
  ((d.routine? frame).bind fun r => r.code.instructionAt? frame.pc).any fun i => i.op.isCall

/-- Steps like `stepInto`, but runs a call to its end. -/
def stepNext (fuel : Nat) (d : Debugger) : Answer StepOutcome :=
  match d.pausedFrame? with
  | none => some (.error (.notPaused .over), d)
  | some origin =>
    let overCall := d.standsAtCall origin
    match d.stepInstruction fuel with
    | none => none
    | some (.error error, d) => some (.error error, d)
    | some (.ok outcome, d) =>
      reported <|
        match outcome, overCall with
        | .paused _ false, true => d.runOverCall fuel origin outcome
        | _, _ => if d.isStopPoint outcome then some (.ok outcome, d) else d.stepToStopPoint fuel

/-- Runs to the next breakpoint. -/
def proceed (fuel : Nat) (d : Debugger) : Answer StepOutcome :=
  match d.stepInstruction fuel with
  | none => none
  | some (.error error, d) => some (.error error, d)
  | some (.ok outcome, d) =>
    reported <|
      match outcome with
      | .paused _ false => (d.rearmAll.setStepping false).resume fuel
      | _ => some (.ok outcome, d)

/-- Makes the next run request execute one instruction only. -/
def pause (d : Debugger) : Debugger :=
  d.setStepping true

end Debugger

end BytecodeDebugger
