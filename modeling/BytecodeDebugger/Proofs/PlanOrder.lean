import BytecodeDebugger.Stepper.Plan

/-!
# The order of stepping plans

The plans of the commands that step are asked after every halt, each on its own. A plan requests
single steps and then is done, once and for all, and of three plans that see the same halts the one
that steps into calls is done first and the one that steps out last. A halt at a breakpoint, without
a frame or in a caller of the start ends all three, wherever it comes behind the start.

## Implementation notes

The start of a plan is not judged by any rule: it is remembered as the origin, if it has a frame.
From there on a plan is done at the first halt that its stop rule accepts, and the rules of the three
commands accept ever fewer halts. So the order of the plans is the order of their rules.
-/

namespace BytecodeDebugger

namespace Plan

variable {command : Command} {origin : Origin} {o : Observation}

/-- The answers of a plan to halts, one after the other. -/
def answers : Plan → List Observation → List Next
  | _, [] => []
  | plan, o :: rest => (plan.next o).1 :: answers (plan.next o).2 rest

/-- The position at which a plan is done first, or the number of halts if it is not done. -/
def firstDone (plan : Plan) (observations : List Observation) : Nat :=
  (plan.answers observations).findIdx (· == .done)

/-! ## The answers of one plan -/

/-- A plan that is done stays so. -/
theorem answers_done (command : Command) (observations : List Observation) :
    answers ⟨command, .done⟩ observations = List.replicate observations.length .done := by
  induction observations with
  | nil => rfl
  | cons o rest ih => exact congrArg (Next.done :: ·) ih

/-- A plan that has begun steps up to the first halt that its rule accepts. -/
theorem answers_stepping (command : Command) (origin : Origin) (observations : List Observation) :
    answers ⟨command, .stepping origin⟩ observations =
      List.replicate (observations.findIdx (stops command origin)) (.request .step) ++
        List.replicate (observations.length - observations.findIdx (stops command origin))
          .done := by
  induction observations with
  | nil => rfl
  | cons o rest ih =>
    rw [answers, List.findIdx_cons, List.length_cons]
    cases h : stops command origin o with
    | true =>
      simp only [next, h, if_true, cond_true, answers_done]
      rfl
    | false =>
      simp only [next, h, Bool.false_eq_true, if_false, cond_false, ih, List.replicate_succ,
        List.cons_append, Nat.add_sub_add_right]

/-- The number of steps that the plan of a command requests. -/
def steps (command : Command) : List Observation → Nat
  | [] => 0
  | o :: rest =>
    match Origin.ofObservation? o with
    | none => 0
    | some origin => rest.findIdx (stops command origin) + 1

/-- A command that steps begins like the others of its kind. -/
theorem next_start (h : command ∈ [Command.into, .over, .out]) (o : Observation) :
    next { command } o = begin command o := by
  simp only [List.mem_cons, List.not_mem_nil, or_false] at h
  rcases h with rfl | rfl | rfl <;> rfl

/-- The plan of a command that steps requests its steps and is done from then on. -/
theorem answers_eq (h : command ∈ [Command.into, .over, .out]) (observations : List Observation) :
    answers { command } observations =
      List.replicate (steps command observations) (.request .step) ++
        List.replicate (observations.length - steps command observations) .done := by
  cases observations with
  | nil => rfl
  | cons o rest =>
    rw [answers, next_start h, begin, steps]
    cases Origin.ofObservation? o with
    | none => exact congrArg (Next.done :: ·) (answers_done command rest)
    | some origin =>
      simp only [answers_stepping, List.length_cons, List.replicate_succ, List.cons_append,
        Nat.add_sub_add_right]

theorem firstDone_eq (h : command ∈ [Command.into, .over, .out])
    (observations : List Observation) :
    firstDone { command } observations = steps command observations := by
  let requested := List.replicate (steps command observations) (Next.request .step)
  have hrequested : requested.findIdx (· == .done) = requested.length := by
    apply List.findIdx_eq_length.mpr
    intro answer hanswer
    rw [List.eq_of_mem_replicate hanswer]
    rfl
  have hdone (n : Nat) : (List.replicate n Next.done).findIdx (· == .done) = 0 := by
    cases n <;> rfl
  rw [firstDone, answers_eq h, List.findIdx_append, hrequested, if_neg (Nat.lt_irrefl _), hdone,
    Nat.zero_add, List.length_replicate]

/-! ## The order of the stop rules -/

/-- A halt that ends a step out ends a step over. -/
theorem stops_over_of_out (h : stops .out origin o = true) : stops .over origin o = true := by
  simp only [stops, Bool.or_eq_true] at h ⊢
  exact .inl h

/-- A halt that ends a step over ends a step into. -/
theorem stops_into_of_over (h : stops .over origin o = true) : stops .into origin o = true := by
  simp only [stops, Bool.or_eq_true, Bool.and_eq_true] at h ⊢
  rcases h with hleft | ⟨-, hlater⟩
  · exact .inl (.inl hleft)
  · exact .inr hlater

/-- A rule that accepts more halts asks for no more steps. -/
theorem steps_le_steps {command other : Command}
    (h : ∀ origin o, stops other origin o = true → stops command origin o = true)
    (observations : List Observation) :
    steps command observations ≤ steps other observations := by
  cases observations with
  | nil => exact Nat.le_refl 0
  | cons o rest =>
    rw [steps, steps]
    cases Origin.ofObservation? o with
    | none => exact Nat.le_refl 0
    | some origin => exact Nat.succ_le_succ (List.findIdx_le_findIdx fun o _ => h origin o)

/-- A step out is done by any halt behind the start that is at a breakpoint, without a frame or in a
caller of the start. -/
theorem steps_out_le {first : Observation} {rest : List Observation} {i : Nat}
    (ho : rest[i]? = some o)
    (h : o.hitBreakpoint = true ∨ o.frame = none ∨ o.depth < first.depth) :
    steps .out (first :: rest) ≤ i + 1 := by
  rw [steps]
  cases horigin : Origin.ofObservation? first with
  | none => exact Nat.zero_le _
  | some origin =>
    have hdepth : origin.depth = first.depth := by
      obtain ⟨frame, -, rfl⟩ := Option.map_eq_some_iff.mp horigin
      rfl
    have hstops : stops .out origin o = true := by
      simp only [stops, mustStop, hdepth, Bool.or_eq_true, Option.isNone_iff_eq_none,
        decide_eq_true_eq, or_assoc]
      exact h
    obtain ⟨hi, hget⟩ := List.getElem?_eq_some_iff.mp ho
    apply Nat.succ_le_succ
    apply Nat.le_of_not_lt
    intro hlater
    have hpassed := List.not_of_lt_findIdx hlater
    rw [hget, hstops] at hpassed
    cases hpassed

/-- Each of the plans of the commands that step requests steps until it is done, and is done from
then on. A step into is done no later than a step over, and that no later than a step out. All of
them are done by any halt behind the start that is at a breakpoint, without a frame or in a caller of
the start. -/
theorem firstDone_ordered (observations : List Observation) :
    (∀ command ∈ [Command.into, .over, .out],
      answers { command } observations =
        List.replicate (firstDone { command } observations) (.request .step) ++
          List.replicate (observations.length - firstDone { command } observations) .done) ∧
      firstDone { command := .into } observations ≤ firstDone { command := .over } observations ∧
      firstDone { command := .over } observations ≤ firstDone { command := .out } observations ∧
      ∀ first rest i o, observations = first :: rest → rest[i]? = some o →
        (o.hitBreakpoint = true ∨ o.frame = none ∨ o.depth < first.depth) →
        firstDone { command := .out } observations ≤ i + 1 := by
  have hinto := firstDone_eq (show .into ∈ [Command.into, .over, .out] by decide) observations
  have hover := firstDone_eq (show .over ∈ [Command.into, .over, .out] by decide) observations
  have hout := firstDone_eq (show .out ∈ [Command.into, .over, .out] by decide) observations
  refine ⟨?_, ?_, ?_, ?_⟩
  · intro command hcommand
    rw [firstDone_eq hcommand]
    exact answers_eq hcommand observations
  · rw [hinto, hover]
    exact steps_le_steps (fun _ _ => stops_into_of_over) observations
  · rw [hover, hout]
    exact steps_le_steps (fun _ _ => stops_over_of_out) observations
  · rintro first rest i o rfl ho hends
    rw [hout]
    exact steps_out_le ho hends

/-- A halt in a routine, on a line of a file. -/
def seen (function depth : Nat) (line : Option UInt32) : Observation :=
  { frame := some ⟨⟨0⟩, function, 0⟩
    depth
    span := line.map (.ofLine "f")
    hitBreakpoint := false }

/-- A routine on its third line calls itself, the callee reaches the ninth line, returns, and the
routine goes on on its fourth line before it returns itself. The step into ends on the ninth line,
the step over on the fourth, and the step out by the return, which is a halt in a caller. -/
theorem firstDone_ordered_recursion :
    let observations := [seen 0 2 (some 3), seen 0 3 none, seen 0 3 (some 9), seen 0 2 none,
      seen 0 2 (some 4), seen 1 1 none]
    firstDone { command := .into } observations = 2 ∧
      firstDone { command := .over } observations = 4 ∧
      firstDone { command := .out } observations = 5 ∧
      answers { command := .over } observations =
        [.request .step, .request .step, .request .step, .request .step, .done, .done] := by
  intro observations
  have hinto : firstDone { command := .into } observations = 2 := by decide
  have hover : firstDone { command := .over } observations = 4 := by decide
  obtain ⟨hanswers, -, -, hcaller⟩ := firstDone_ordered observations
  have hover' := hanswers .over (by decide)
  rw [hover] at hover'
  refine ⟨hinto, hover, ?_, hover'⟩
  apply Nat.le_antisymm
  · exact hcaller _ _ 4 _ rfl rfl (.inr (.inr (by decide)))
  · decide

end Plan

end BytecodeDebugger
