import BytecodeDebugger.Proofs.Requests

/-!
# The stop rules of commands

Where each stepping command is to stop, stated of the machines of a trace and the source lines of
the program, and the same rule as a plan applies it to what it observes of a stepper. A plan looks at
spans through the frame of the debuggee and compares with what it remembered at its start; over a
halted call both come to the same.
-/

namespace BytecodeDebugger

namespace Machine

/-- The routine that the innermost frame executes. -/
def function? (m : Machine) : Option Nat :=
  m.location?.map Location.function

/-- The source span of exactly the location of the innermost frame. -/
def span? (program : Program) (m : Machine) : Option SourceSpan :=
  m.location?.bind fun place =>
    (program.routine? place.function).bind fun r => r.spanAt? place.address

/-- A machine is on a new line if it has a span and, should there have been one at the start, it is
in the same file on a later line. -/
def OnNewLine (program : Program) (m start : Machine) : Prop :=
  ∃ current, m.span? program = some current ∧ ∀ first, start.span? program = some first →
    current.file = first.file ∧ first.start.line < current.start.line

end Machine

namespace Command

/-- The machines at which a command that started in a given one stops by its own rule. -/
def StopsAt (program : Program) (start m : Machine) : Command → Prop
  | .into =>
    m.frames.length < start.frames.length ∨ m.function? ≠ start.function? ∨
      m.OnNewLine program start
  | .over =>
    m.frames.length < start.frames.length ∨
      (m.frames.length = start.frames.length ∧ m.function? = start.function? ∧
        m.OnNewLine program start)
  | .out => m.frames.length < start.frames.length
  | .proceed => False
  | .single => True

/-- The machines at which a command stops: those on marked locations, and those of its own rule. -/
def Stops (marks : Location → Bool) (program : Program) (start : Machine) (command : Command)
    (m : Machine) : Prop :=
  m.location?.any marks = true ∨ command.StopsAt program start m

end Command

namespace Stepper

variable {s : Stepper} {program : Program} {start m : Machine}

/-- Spans are those of the program as it was written. -/
theorem span?_eq (hs : s.vm.PausedIn program m) {place : Location}
    (hplace : m.location? = some place) :
    s.debugger.span? ⟨s.vm.programId, place.function, place.address⟩ = m.span? program := by
  obtain ⟨p, hp, rfl⟩ := hs.live
  have hprogram : s.debugger.vm.program = some p := hp
  have hcurrent : s.debugger.isCurrent ⟨s.vm.programId, place.function, place.address⟩ = true :=
    beq_self_eq_true _
  rw [Debugger.span?, Debugger.routine?, hcurrent, if_pos rfl, hprogram, Option.bind_some,
    Machine.span?, hplace, Option.bind_some, Program.routine?_unpatched]
  cases p.routine? place.function <;> rfl

/-- What a plan sees of a halted call. -/
theorem observe_eq (hs : s.vm.PausedIn program m) {place : Location}
    (hplace : m.location? = some place) :
    s.observe =
      { frame := some ⟨s.vm.programId, place.function, place.address⟩
        depth := m.frames.length
        span := m.span? program
        hitBreakpoint := s.onBreakpoint } := by
  have hframe : s.vm.frameInfo? 0 = some ⟨s.vm.programId, place.function, place.address⟩ :=
    Debuggee.frameInfo?_of_haltedAt? (hs.haltedAt?.trans hplace)
  have hdepth : s.vm.depth = m.frames.length := by
    rw [Debuggee.depth, hs.machine]
  simp only [observe, hs.isPaused, if_true, hframe, hdepth, Option.bind_some, span?_eq hs hplace]

theorem frame_observe (hs : s.vm.isPaused = false) : s.observe.frame = none := by
  simp [observe, hs]

end Stepper

namespace Plan

variable {program : Program} {start m : Machine}

/-- What a plan remembers of its start. -/
def originOf (program : Program) (start : Machine) (place : Location) : Origin :=
  ⟨place.function, start.frames.length, start.span? program⟩

theorem isLater_iff {place : Location} :
    (originOf program start place).isLater (m.span? program) = true ↔
      m.OnNewLine program start := by
  simp only [Origin.isLater, originOf, Machine.OnNewLine]
  cases start.span? program with
  | none => cases m.span? program <;> simp
  | some first => cases m.span? program <;> simp

/-- A halt that ends every plan ends one that has issued a request. -/
theorem next_of_mustStop {plan : Plan} {o : Observation} (hissued : plan.phase ≠ .start)
    (ho : mustStop o = true) : (plan.next o).1 = .done := by
  have hstops (origin : Origin) : stops plan.command origin o = true := by
    cases hcommand : plan.command <;> simp [stops, ho]
  cases hphase : plan.phase with
  | start => exact absurd hphase hissued
  | stepping origin => simp only [next, hphase, hstops, if_true]
  | done => simp only [next, hphase]

/-- Every command begins by a request, if a call is halted in a frame. -/
theorem exists_next {o : Observation} {frame : FrameInfo} (ho : o.frame = some frame)
    (command : Command) : ∃ request plan, next { command } o = (.request request, plan) := by
  cases command <;> simp [next, begin, Origin.ofObservation?, ho]

/-- A plan that has issued a request has begun. -/
theorem phase_ne_start {plan plan' : Plan} {o : Observation} {request : Request}
    (h : plan.next o = (.request request, plan')) : plan'.phase ≠ .start := by
  have hbegins {command : Command} (h : begin command o = (.request request, plan')) :
      plan'.phase ≠ .start := by
    rw [begin] at h
    split at h <;> cases h
    nofun
  obtain ⟨command, phase⟩ := plan
  cases phase with
  | done => cases h
  | stepping origin =>
    simp only [next] at h
    split at h <;> cases h
    nofun
  | start =>
    match command with
    | .single =>
      cases h
      nofun
    | .proceed =>
      cases h
      nofun
    | .into => exact hbegins h
    | .over => exact hbegins h
    | .out => exact hbegins h

/-- The rule of a plan, applied to what it sees of a halted call, is the rule of its command. -/
theorem stops_iff {s : Stepper} {command : Command} {first : Location}
    (hs : s.vm.PausedIn program m) (hfirst : start.location? = some first)
    (hcommand : command ≠ .proceed ∧ command ≠ .single) :
    stops command (originOf program start first) s.observe = true ↔
      s.onBreakpoint = true ∨ command.StopsAt program start m := by
  obtain ⟨place, hplace⟩ := Debuggee.location?_eq_some hs.frames_ne_nil
  have hm : m.function? = some place.function := by
    rw [Machine.function?, hplace]
    rfl
  have hstart : start.function? = some first.function := by
    rw [Machine.function?, hfirst]
    rfl
  have hsame : (originOf program start first).sameRoutine s.observe = true ↔
      m.function? = start.function? := by
    rw [Stepper.observe_eq hs hplace, hm, hstart]
    simp [Origin.sameRoutine, originOf]
  have hlater : (originOf program start first).isLater s.observe.span = true ↔
      m.OnNewLine program start := by
    rw [Stepper.observe_eq hs hplace]
    exact isLater_iff
  have hmust : mustStop s.observe = s.onBreakpoint := by
    rw [Stepper.observe_eq hs hplace]
    exact Bool.or_false _
  have hdepth : s.observe.depth = m.frames.length := by
    rw [Stepper.observe_eq hs hplace]
  have horigin : (originOf program start first).depth = start.frames.length := rfl
  match command with
  | .proceed => exact absurd rfl hcommand.1
  | .single => exact absurd rfl hcommand.2
  | .into =>
    simp only [stops, Command.StopsAt, hmust, hdepth, horigin, Bool.or_eq_true, decide_eq_true_eq,
      hlater, Bool.not_eq_true', ← Bool.not_eq_true, hsame, or_assoc, ne_eq]
  | .over =>
    simp only [stops, Command.StopsAt, hmust, hdepth, horigin, Bool.or_eq_true, Bool.and_eq_true,
      decide_eq_true_eq, beq_iff_eq, hlater, hsame, or_assoc, and_assoc]
  | .out =>
    simp only [stops, Command.StopsAt, hmust, hdepth, horigin, Bool.or_eq_true, decide_eq_true_eq]

/-- A stepping plan is over at a noted halt on a breakpoint and by its rule, and otherwise asks for
another step. -/
theorem next_cases {s : Stepper} {command : Command} {first : Location}
    (hs : s.vm.PausedIn program m) (hfirst : start.location? = some first)
    (hcommand : command ≠ .proceed ∧ command ≠ .single) :
    let plan : Plan := ⟨command, .stepping (originOf program start first)⟩
    ((plan.next s.observe).1 = .done ∧
        (s.onBreakpoint = true ∨ command.StopsAt program start m)) ∨
      (plan.next s.observe = (.request .step, plan) ∧ s.onBreakpoint = false ∧
        ¬command.StopsAt program start m) := by
  have hiff := stops_iff hs hfirst hcommand
  cases hstops : stops command (originOf program start first) s.observe with
  | true => exact .inl ⟨by simp only [next, hstops, if_true], hiff.mp hstops⟩
  | false =>
    rw [hstops, iff_false_left Bool.false_ne_true, not_or, Bool.not_eq_true] at hiff
    exact .inr ⟨by simp only [next, hstops, Bool.false_eq_true, if_false], hiff⟩

end Plan

end BytecodeDebugger
