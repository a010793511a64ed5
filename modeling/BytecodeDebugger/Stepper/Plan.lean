import BytecodeDebugger.Debugger.Command
import BytecodeDebugger.Program.Source

/-!
# Plans

A stepping command as a plan that is asked for its next request after every halt. A plan sees the
debuggee through an `Observation` only, so its rule for stopping can be stated without running any
code.

## Implementation notes

The commands that end at a line remember where they started. A later line is one of the same file
with a greater number; without a span at the start, any span counts as a later line.
-/

namespace BytecodeDebugger

/-- What a plan sees of a halted debuggee. -/
structure Observation where
  /-- The innermost frame, if a call is halted. -/
  frame : Option FrameInfo
  /-- The number of frames. -/
  depth : Nat
  /-- The span of exactly the address of the frame. -/
  span : Option SourceSpan
  /-- Whether a breakpoint caused the halt. -/
  hitBreakpoint : Bool
  deriving DecidableEq

/-- What a plan asks for. -/
inductive Request where
  /-- Execute one instruction. -/
  | step
  /-- Run to a breakpoint. -/
  | proceed
  deriving DecidableEq

/-- The answer of a plan to a halt. -/
inductive Next where
  | request (request : Request)
  | done
  deriving DecidableEq

/-- Where a plan started. -/
structure Origin where
  function : Nat
  depth : Nat
  span : Option SourceSpan
  deriving DecidableEq

namespace Origin

/-- The place of an observation, if a call is halted. -/
def ofObservation? (o : Observation) : Option Origin :=
  o.frame.map fun frame => ⟨frame.function, o.depth, o.span⟩

/-- Whether a span is on a later line than the start. -/
def isLater (origin : Origin) (current : Option SourceSpan) : Bool :=
  match origin.span, current with
  | _, none => false
  | none, some _ => true
  | some start, some current =>
    current.file == start.file && current.start.line > start.start.line

/-- Whether an observation is of the routine of the start. -/
def sameRoutine (origin : Origin) (o : Observation) : Bool :=
  o.frame.any fun frame => frame.function == origin.function

end Origin

/-- How far a plan has come. -/
inductive Phase where
  | start
  | stepping (origin : Origin)
  | done
  deriving DecidableEq

/-- A stepping command in progress. -/
structure Plan where
  command : Command
  phase : Phase := .start
  deriving DecidableEq

namespace Plan

/-- Whether a halt ends every plan: at a breakpoint, or without a frame. -/
def mustStop (o : Observation) : Bool :=
  o.hitBreakpoint || o.frame.isNone

/-- Whether a halt ends a command that steps. -/
def stops (command : Command) (origin : Origin) (o : Observation) : Bool :=
  match command with
  | .into =>
    mustStop o || o.depth < origin.depth || !origin.sameRoutine o || origin.isLater o.span
  | .over =>
    mustStop o || o.depth < origin.depth ||
      (o.depth == origin.depth && origin.sameRoutine o && origin.isLater o.span)
  | .out => mustStop o || o.depth < origin.depth
  | .proceed => true
  | .single => true

/-- Answers a halt by the first request of a command that steps to a place of its own choice. -/
def begin (command : Command) (o : Observation) : Next × Plan :=
  match Origin.ofObservation? o with
  | some origin => (.request .step, ⟨command, .stepping origin⟩)
  | none => (.done, ⟨command, .done⟩)

/-- Answers a halt. -/
def next (plan : Plan) (o : Observation) : Next × Plan :=
  match plan.phase with
  | .done => (.done, plan)
  | .stepping origin =>
    if stops plan.command origin o then (.done, { plan with phase := .done })
    else (.request .step, plan)
  | .start =>
    match plan.command with
    | .single => (.request .step, { plan with phase := .done })
    | .proceed => (.request .proceed, { plan with phase := .done })
    | command => begin command o

end Plan

end BytecodeDebugger
