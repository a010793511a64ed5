import BytecodeDebugger.Channel
import BytecodeDebugger.Debugger.Command

/-!
# Breakpoints

A debugger keeps a set of breakpoints over a debuggee and patches them into its program. Breakpoints
are set by location or by source line. A line stays registered when another program is loaded, and
is resolved against it.

## Implementation notes

A breakpoint whose location is outside the program stays in the set and is patched nowhere. A frame
of a program that is no longer loaded has no code, no span and no source line, and restoring or
rearming it does nothing.
-/

namespace BytecodeDebugger

/-- A debuggee with breakpoints. -/
structure Debugger where
  vm : Debuggee := {}
  /-- The locations at which the debuggee is to halt. -/
  breakpoints : SortedSet Location := ∅
  /-- The registered source lines, with what they resolve to in the loaded program. -/
  lineBreakpoints : SortedMap SourceLine (Option Location) := ∅
  /-- Hears where a call halted. -/
  breaks : Channel FrameInfo := {}
  /-- Hears that a call started or ended. -/
  activity : Channel Bool := {}
  deriving DecidableEq, Inhabited

namespace Debugger

/-- Whether a frame belongs to the loaded program. -/
def isCurrent (d : Debugger) (frame : FrameInfo) : Bool :=
  frame.program == d.vm.programId

/-- Whether a location is in the set of breakpoints. -/
def hasBreakpoint (d : Debugger) (place : Location) : Bool :=
  d.breakpoints.contains place

/-- The routine that a frame executes. -/
def routine? (d : Debugger) (frame : FrameInfo) : Option Routine :=
  if d.isCurrent frame then d.vm.program.bind fun program => program.routine? frame.function
  else none

/-- The span of exactly the address a frame stands at. -/
def span? (d : Debugger) (frame : FrameInfo) : Option SourceSpan :=
  (d.routine? frame).bind fun r => r.spanAt? frame.pc

/-- The source line of the nearest span, not before the address a frame stands at. -/
def sourceLine? (d : Debugger) (frame : FrameInfo) : Option SourceLine :=
  ((d.routine? frame).bind fun r => r.spanFrom? frame.pc).map fun (_, span) =>
    ⟨span.file, span.start.line⟩

/-- The location of the code of a source line in the loaded program. -/
def resolve? (d : Debugger) (line : SourceLine) : Option Location :=
  d.vm.program.bind fun program => program.lookupLine? line.file line.line

/-- Switches stepping mode of the debuggee. -/
def setStepping (d : Debugger) (on : Bool) : Debugger :=
  { d with vm := d.vm.setStepping on }

/-- Patches a location. The answer says whether the trap was put there now. -/
def patch (d : Debugger) (place : Location) : Bool × Debugger :=
  let (applied, vm) := d.vm.patch place
  (applied, { d with vm })

/-- Puts the displaced instruction of a location back. The answer says whether there was one. -/
def restore (d : Debugger) (place : Location) : Bool × Debugger :=
  let (restored, vm) := d.vm.restore place
  (restored, { d with vm })

/-- Puts the displaced instruction back that a frame stands at. -/
def restoreFrame (d : Debugger) (frame : FrameInfo) : Bool × Debugger :=
  if d.isCurrent frame then d.restore frame.location else (false, d)

/-- Patches the location that a frame stands at, if it has a breakpoint. -/
def rearm (d : Debugger) (frame : FrameInfo) : Debugger :=
  if d.isCurrent frame && d.hasBreakpoint frame.location then (d.patch frame.location).2 else d

/-- Patches every breakpoint. -/
def rearmAll (d : Debugger) : Debugger :=
  d.breakpoints.keys.foldl (fun d place => (d.patch place).2) d

/-- Sets a breakpoint. -/
def set (d : Debugger) (place : Location) : Debugger :=
  ({ d with breakpoints := d.breakpoints.insert place () }.patch place).2

/-- Removes a breakpoint. -/
def remove (d : Debugger) (place : Location) : Debugger :=
  ({ d with breakpoints := d.breakpoints.erase place }.restore place).2

/-- Registers a source line and sets a breakpoint on its code. The answer is where it was set, if the
line has code. -/
def setLine (d : Debugger) (line : SourceLine) : Option Location × Debugger :=
  let resolved := d.resolve? line
  let d := { d with lineBreakpoints := d.lineBreakpoints.insert line resolved }
  match resolved with
  | some place => (resolved, d.set place)
  | none => (resolved, d)

/-- Forgets a source line. The breakpoints on the code it has now and on the code it had when it was
last resolved are removed. -/
def removeLine (d : Debugger) (line : SourceLine) : Debugger :=
  let previous := (d.lineBreakpoints.get? line).join
  let current := d.resolve? line
  let d := { d with lineBreakpoints := d.lineBreakpoints.erase line }
  let d := match current with
    | some place => d.remove place
    | none => d
  match previous with
  | some place => if current = some place then d else d.remove place
  | none => d

/-- Resolves a registered source line against the loaded program: the breakpoint on the code it had
goes, the one on the code it has now is added. -/
def relocate (d : Debugger) (line : SourceLine) : Debugger :=
  let resolved := d.resolve? line
  let kept := match (d.lineBreakpoints.get? line).join with
    | some previous =>
      if resolved = some previous then d.breakpoints else d.breakpoints.erase previous
    | none => d.breakpoints
  { d with
    lineBreakpoints := d.lineBreakpoints.insert line resolved
    breakpoints := match resolved with
      | some place => kept.insert place ()
      | none => kept }

/-- Loads a program, resolves the registered source lines against it and patches all breakpoints
into it. -/
def load (d : Debugger) (program : Program) : ProgramId × Debugger :=
  let (id, vm) := d.vm.load program
  let d := { d with vm }
  (id, (d.lineBreakpoints.keys.foldl relocate d).rearmAll)

end Debugger

end BytecodeDebugger
