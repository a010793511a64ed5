import BytecodeDebugger.Proofs.OperandSplits
import BytecodeDebugger.Proofs.PlainTrace
import Mathlib.Tactic.ByContra

/-!
# A nested call behaves like a call of its own

A routine that is called from another one goes through the same instructions as if it were called
alone with the same arguments. Below its operands lie those of its callers, and below its frames
theirs; it neither reads nor changes them, and when it returns, the caller goes on behind its call
instruction with the value on top of its own operands. The one difference is a call in the routine
for which too few operands lie above the base: alone it fails, and nested it stops the process if the
raised base and the number of arguments have no word as their sum.

## Implementation notes

`Machine.atop` puts a machine on top of frames and operands of callers. It commutes with every
operation of the operand stack, because the bases of the frames are raised by the number of operands
below; with a split as long as the raised base leaves a word as the sum. Hence it commutes with every
instruction and with every step at which `Machine.CallFits` holds. A call that is entered takes its
arguments from operands in memory, so its sum is a word in any case, and the trace of the nested call
is the trace of the call alone, put on top of its callers.

Nothing is asked of the callers but that the arguments lie above the base of the innermost one, and
nothing of the code: where it has a trap, both calls are trapped there.
-/

namespace BytecodeDebugger

open WordArithmetic (limit)

/-! ## Operands -/

namespace Operands

/-- The stack on top of other operands. -/
def above (s : Operands) (below : Array Int32) : Operands :=
  ⟨below ++ s.values⟩

variable (s : Operands) (below : Array Int32)

@[simp]
theorem size_above : (s.above below).size = below.size + s.size :=
  Array.size_append

theorem push_above (value : Int32) : (s.above below).push value = (s.push value).above below :=
  congrArg Operands.mk Array.push_append

theorem pop_above (base : Nat) :
    (s.above below).pop (below.size + base) =
      (s.pop base).map fun (value, rest) => (value, rest.above below) := by
  have hsize : (below ++ s.values).size = below.size + s.values.size := Array.size_append
  rw [pop, pop]
  by_cases h : base < s.values.size
  · have hpositive : 0 < s.values.size := by omega
    have hnonempty : ¬s.values.isEmpty = true := by
      rw [Array.isEmpty_iff_size_eq_zero]
      omega
    have hback : (below ++ s.values).back (by omega) = s.values.back hpositive :=
      Array.back_append_of_size_pos hpositive
    have hpop : (below ++ s.values).pop = below ++ s.values.pop := by
      rw [Array.pop_append, if_neg hnonempty]
    rw [dif_pos h, dif_pos (by rw [above, hsize]; omega)]
    simp only [above, hback, hpop, Except.map]
  · rw [dif_neg h, dif_neg (by rw [above, hsize]; omega)]
    rfl

theorem peek_above (base : Nat) : (s.above below).peek (below.size + base) = s.peek base := by
  have hsize : (below ++ s.values).size = below.size + s.values.size := Array.size_append
  rw [peek, peek]
  by_cases h : base < s.values.size
  · have hpositive : 0 < s.values.size := by omega
    rw [dif_pos h, dif_pos (by rw [above, hsize]; omega)]
    exact congrArg Except.ok (Array.back_append_of_size_pos hpositive)
  · rw [dif_neg h, dif_neg (by rw [above, hsize]; omega)]

/-- Taking operands off leaves those below. -/
theorem shrink_append (values : Array Int32) (size : Nat) :
    (below ++ values).shrink (below.size + size) = below ++ values.shrink size := by
  rw [Array.shrink_eq_take, Array.take_eq_extract, Array.shrink_eq_take, Array.take_eq_extract,
    Array.extract_append, Array.extract_eq_self_of_le (Nat.le_add_right _ _), Nat.zero_sub,
    Nat.add_sub_cancel_left]

theorem extract_append (values : Array Int32) (start stop : Nat) :
    (below ++ values).extract (below.size + start) (below.size + stop) =
      values.extract start stop := by
  rw [Array.extract_append, Array.extract_empty_of_size_le_start (Nat.le_add_right _ _),
    Array.empty_append, Nat.add_sub_cancel_left, Nat.add_sub_cancel_left]

/-- What is split off does not reach below, as long as the raised base leaves a word as the sum. -/
theorem split_above {base n : Nat} (hsum : below.size + base + n < limit) :
    (s.above below).split .checked (below.size + base) n =
      (s.split .checked base n).map
        (Except.map fun (args, rest) => (args, rest.above below)) := by
  have hcut : below.size + s.size - n = below.size + (s.size - n) ∨ s.size < base + n := by omega
  rw [split_checked_of_lt hsum, split_checked_of_lt (by omega), Option.map_some, size_above]
  by_cases h : s.size < base + n
  · rw [if_pos h, if_pos (by omega)]
    rfl
  · rw [if_neg h, if_neg (by omega), hcut.resolve_right h]
    simp only [above, extract_append, shrink_append, Except.map]

end Operands

/-! ## Instructions -/

namespace Frame

/-- The frame with its operands starting so much higher. -/
def raise (frame : Frame) (height : Nat) : Frame :=
  { frame with stackBase := height + frame.stackBase }

end Frame

namespace Effect

/-- The effect on top of other operands. -/
def above (effect : Effect) (below : Array Int32) : Effect :=
  ⟨effect.outcome, effect.frame.raise below.size, effect.stack.above below⟩

end Effect

namespace Execute

variable (frame : Frame) (stack : Operands) (below : Array Int32)

theorem unary_above (f : Int32 → Int32) :
    unary f (frame.raise below.size) (stack.above below) = (unary f frame stack).above below := by
  simp only [unary, Frame.raise, stack.pop_above]
  cases stack.pop frame.stackBase with
  | error fault => rfl
  | ok popped =>
    simp only [Except.map, Operands.push_above]
    rfl

theorem binary_above (f : Int32 → Int32 → Except Fault Int32) :
    binary f (frame.raise below.size) (stack.above below) = (binary f frame stack).above below := by
  simp only [binary, Frame.raise, stack.pop_above]
  cases stack.pop frame.stackBase with
  | error fault => rfl
  | ok upper =>
    simp only [Except.map, upper.2.pop_above]
    cases upper.2.pop frame.stackBase with
    | error fault => rfl
    | ok lower =>
      simp only
      cases f lower.1 upper.1 with
      | error fault => rfl
      | ok value =>
        simp only [Operands.push_above]
        rfl

theorem jumpIf_above (taken : Int32 → Bool) (offset : Int32) :
    jumpIf taken offset (frame.raise below.size) (stack.above below) =
      (jumpIf taken offset frame stack).above below := by
  simp only [jumpIf, Frame.raise, stack.pop_above]
  cases stack.pop frame.stackBase <;> rfl

theorem read_above (offset : Int32) :
    read offset (frame.raise below.size) (stack.above below) =
      (read offset frame stack).above below := by
  simp only [read, Frame.raise, stack.pop_above]
  cases stack.pop frame.stackBase with
  | error fault => rfl
  | ok popped =>
    simp only [Except.map]
    cases frame.memory.read (popped.1.toInt + offset.toInt) with
    | error fault => rfl
    | ok value =>
      simp only [Operands.push_above]
      rfl

theorem write_above (offset : Int32) :
    write offset (frame.raise below.size) (stack.above below) =
      (write offset frame stack).above below := by
  simp only [write, Frame.raise, stack.pop_above]
  cases stack.pop frame.stackBase with
  | error fault => rfl
  | ok popped =>
    simp only [Except.map, popped.2.peek_above]
    cases popped.2.peek frame.stackBase with
    | error fault => rfl
    | ok value =>
      simp only
      cases frame.memory.write (popped.1.toInt + offset.toInt) value <;> rfl

/-- Popping stops where the operands of the frame end, by induction on the count. -/
theorem popMany_above (base n : Nat) :
    popMany (below.size + base) n (stack.above below) =
      ((popMany base n stack).1, (popMany base n stack).2.above below) := by
  induction n generalizing stack with
  | zero => rfl
  | succ n ih =>
    simp only [popMany, stack.pop_above]
    cases stack.pop base with
    | error fault => rfl
    | ok popped => exact ih popped.2

theorem discard_above (count : Int32) :
    discard count (frame.raise below.size) (stack.above below) =
      (discard count frame stack).above below := by
  simp only [discard, Frame.raise, popMany_above]
  generalize popMany frame.stackBase (max count.toInt 1).toNat stack = popped
  obtain ⟨answer, rest⟩ := popped
  cases answer <;> rfl

end Execute

open Execute in
/-- An instruction does on top of other operands what it does without them. -/
theorem execute_above (i : Instruction) (frame : Frame) (stack : Operands) (below : Array Int32) :
    execute i (frame.raise below.size) (stack.above below) =
      (execute i frame stack).above below := by
  cases hop : i.op <;> simp only [execute, hop]
  case noop | trap | call | ret | jump => rfl
  case push => exact congrArg (Effect.mk _ _) (stack.push_above below _)
  case read => exact read_above _ _ _ _
  case write => exact write_above _ _ _ _
  case pop => exact discard_above _ _ _ _
  case jumpZero | jumpNonzero => exact jumpIf_above _ _ _ _ _
  case truth | negate => exact unary_above _ _ _ _
  all_goals exact binary_above _ _ _ _

/-! ## Steps -/

namespace Machine

/-- The machine on top of the frames and operands of callers. -/
def atop (m : Machine) (callers : List Frame) (below : Array Int32) : Machine :=
  ⟨m.frames.map (·.raise below.size) ++ callers, m.stack.above below⟩

end Machine

namespace Transition

/-- What becomes of a machine on top of callers, if alone it takes this transition. Where it
finishes alone, it leaves to the callers. -/
def atop (callers : List Frame) (below : Array Int32) : Transition → Transition
  | .moved m => .moved (m.atop callers below)
  | .trapped m => .trapped (m.atop callers below)
  | .finished _ stack => Machine.leave callers (stack.above below)
  | .faulted place fault stack => .faulted place fault (stack.above below)
  | .idle stack => .idle (stack.above below)

end Transition

namespace Machine

variable {program : Program} {callers : List Frame} {below : Array Int32}

/-! ### Calls -/

/-- The routine that the instruction a frame stands at calls. -/
def called? (program : Program) (frame : Frame) : Option (Nat × Routine) :=
  match fetch program frame.function frame.pc with
  | .error _ => none
  | .ok i => if i.op = .call then callee? program i.immediate.toInt else none

/-- If the machine is about to execute a call, then the base of its frame, raised by so much, and the
number of arguments have a word as their sum. -/
def CallFits (program : Program) (height : Nat) (m : Machine) : Prop :=
  ∀ frame ∈ m.frames.head?, ∀ callee ∈ called? program frame,
    height + frame.stackBase + callee.2.argCount < limit

instance (program : Program) (height : Nat) (m : Machine) : Decidable (m.CallFits program height) :=
  inferInstanceAs (Decidable (∀ frame ∈ m.frames.head?, ∀ callee ∈ called? program frame, _ < _))

section Called

variable {frame : Frame} {function : Nat} {r : Routine} {i : Instruction}

/-- What it takes for a frame to stand at a call. -/
theorem cases_of_called (h : called? program frame = some (function, r)) :
    ∃ i, fetch program frame.function frame.pc = .ok i ∧ i.op = .call ∧
      callee? program i.immediate.toInt = some (function, r) := by
  rw [called?] at h
  split at h
  · cases h
  · rename_i i hfetch
    split at h
    · rename_i hop
      exact ⟨i, hfetch, hop, h⟩
    · cases h

theorem called?_of_fetch (hfetch : fetch program frame.function frame.pc = .ok i)
    (hop : i.op = .call) : called? program frame = callee? program i.immediate.toInt := by
  simp only [called?, hfetch, hop, if_true]

/-- A call splits off the arguments of the routine and enters it. -/
theorem stepIn_of_called (arithmetic : WordArithmetic) (stack : Operands)
    (h : called? program frame = some (function, r)) :
    stepIn arithmetic program ⟨frame :: callers, stack⟩ =
      (stack.split arithmetic frame.stackBase r.argCount).map
        (enterWith function frame callers stack) := by
  obtain ⟨i, hfetch, hop, hcallee⟩ := cases_of_called h
  have hexecute : execute i frame stack = ⟨.ok (.call i.immediate.toInt), frame, stack⟩ := by
    simp only [execute, hop]
  simp only [stepIn, hfetch, hexecute, proceed, enter, hcallee]

end Called

/-! ### On top of callers -/

/-- A routine is entered on top of callers as it is without them. -/
theorem enter_atop (index : Int) (frame : Frame) (inner : List Frame) (stack : Operands)
    (hfits : ∀ callee ∈ callee? program index,
      below.size + frame.stackBase + callee.2.argCount < limit) :
    enter .checked program index (frame.raise below.size)
        (inner.map (·.raise below.size) ++ callers) (stack.above below) =
      (enter .checked program index frame inner stack).map (Transition.atop callers below) := by
  simp only [enter]
  cases hcallee : callee? program index with
  | none => rfl
  | some callee =>
    simp only [Frame.raise, stack.split_above below (hfits callee hcallee), Option.map_map]
    congr 1
    funext taken
    cases taken with
    | error fault => rfl
    | ok taken =>
      simp only [Function.comp_apply, Except.map, enterWith, Operands.size_above]
      rfl

theorem leave_atop (inner : List Frame) (stack : Operands) :
    leave (inner.map (·.raise below.size) ++ callers) (stack.above below) =
      (leave inner stack).atop callers below := by
  cases inner <;> rfl

theorem proceed_atop (place : Location) (inner : List Frame) (effect : Effect)
    (hfits : ∀ index, effect.outcome = .ok (.call index) → ∀ callee ∈ callee? program index,
      below.size + effect.frame.stackBase + callee.2.argCount < limit) :
    proceed .checked program place (inner.map (·.raise below.size) ++ callers)
        (effect.above below) =
      (proceed .checked program place inner effect).map (Transition.atop callers below) := by
  obtain ⟨outcome, frame, stack⟩ := effect
  cases outcome with
  | error fault => rfl
  | ok outcome =>
    cases outcome with
    | next pc => rfl
    | call index => exact enter_atop index frame inner stack (hfits index rfl)
    | ret => exact congrArg some (leave_atop inner stack)
    | halt => rfl

/-- The step lemma: on top of callers a machine takes the transition that it takes alone, as long as
the sum of a call that it executes is a word. -/
theorem step_atop {m : Machine} (hm : m.frames ≠ []) (hfits : m.CallFits program below.size) :
    (m.atop callers below).step program =
      (m.step program).map (Transition.atop callers below) := by
  obtain ⟨frames, stack⟩ := m
  cases frames with
  | nil => exact absurd rfl hm
  | cons frame inner =>
    have hfetch : fetch program (frame.raise below.size).function (frame.raise below.size).pc =
        fetch program frame.function frame.pc := rfl
    simp only [atop, List.map_cons, List.cons_append, step, stepIn, hfetch]
    cases hi : fetch program frame.function frame.pc with
    | error fault => rfl
    | ok i =>
      simp only [execute_above]
      apply proceed_atop
      intro index hindex callee hcallee
      -- Only a call leaves the frame to be entered from, and it leaves it as it is.
      rcases outcome_execute hindex with ⟨pc, hnext⟩ | ⟨-, htrap⟩ | ⟨hop, hcall⟩ | ⟨-, hreturn⟩
      · cases hnext
      · rw [htrap] at hindex
        cases hindex
      · rw [hcall] at hindex ⊢
        cases hindex
        exact hfits frame rfl callee ((called?_of_fetch hi hop).trans hcallee)
      · rw [hreturn] at hindex
        cases hindex

/-- A machine whose sum is not a word stands at a call. -/
theorem exists_called_of_not_callFits {m : Machine} {height : Nat} (h : ¬m.CallFits program height) :
    ∃ frame inner stack function r, m = ⟨frame :: inner, stack⟩ ∧
      called? program frame = some (function, r) ∧
      limit ≤ height + frame.stackBase + r.argCount := by
  simp only [CallFits, not_forall] at h
  obtain ⟨frame, hframe, ⟨function, r⟩, hcalled, hsum⟩ := h
  obtain ⟨frames, stack⟩ := m
  cases frames with
  | nil => cases hframe
  | cons top inner =>
    cases hframe
    exact ⟨frame, inner, stack, function, r, rfl, hcalled, Nat.not_lt.mp hsum⟩

/-- Where the sum of a call is not a word on top of callers, the process is stopped there. -/
theorem step_atop_of_not_callFits {m : Machine} (h : ¬m.CallFits program below.size) :
    (m.atop callers below).step program = none := by
  obtain ⟨frame, inner, stack, function, r, rfl, hcalled, hsum⟩ := exists_called_of_not_callFits h
  have hraised : called? program (frame.raise below.size) = some (function, r) := hcalled
  have hsplit : (stack.above below).split .checked (frame.raise below.size).stackBase r.argCount =
      none := Operands.split_checked_of_le hsum
  exact (stepIn_of_called .checked _ hraised).trans (by rw [hsplit, Option.map_none])

/-- Alone such a call fails for want of operands, unless it stops the process as well. -/
theorem step_of_not_callFits {m : Machine} {height : Nat} (h : ¬m.CallFits program height)
    (hsize : height + m.stack.size < limit) :
    m.step program = none ∨
      ∃ place, m.step program = some (.faulted place .stackUnderflow m.stack) := by
  obtain ⟨frame, inner, stack, function, r, rfl, hcalled, hsum⟩ := exists_called_of_not_callFits h
  have hstep : step program ⟨frame :: inner, stack⟩ = _ := stepIn_of_called .checked stack hcalled
  rcases Nat.lt_or_ge (frame.stackBase + r.argCount) limit with hlt | hge
  · have hfew : stack.size < frame.stackBase + r.argCount := by
      simp only at hsize
      omega
    rw [Operands.split_checked_of_lt hlt, if_pos hfew] at hstep
    exact .inr ⟨_, hstep⟩
  · rw [Operands.split_checked_of_le hge] at hstep
    exact .inl hstep

/-- The operands are in the memory of the process during so many instructions. -/
def StaysInMemory (program : Program) (j : Nat) (m : Machine) : Prop :=
  ∀ k ≤ j, ∀ mid ∈ m.after program k, mid.stack.InMemory

instance (program : Program) (j : Nat) (m : Machine) : Decidable (m.StaysInMemory program j) :=
  inferInstanceAs (Decidable (∀ k ≤ j, ∀ mid ∈ m.after program k, mid.stack.InMemory))

theorem StaysInMemory.here {m : Machine} {j : Nat} (h : m.StaysInMemory program j) :
    m.stack.InMemory :=
  h 0 j.zero_le m rfl

theorem StaysInMemory.tail {m next : Machine} {j : Nat} (h : m.StaysInMemory program (j + 1))
    (hmoved : m.step program = some (.moved next)) : next.StaysInMemory program j := by
  intro k hk mid hmid
  exact h (k + 1) (Nat.succ_le_succ hk) mid ((after_succ_of_moved k hmoved).trans hmid)

/-- An instruction that neither stops the process nor fails for want of operands is not a call with
too large a sum. -/
theorem callFits_of_step {m : Machine} {t : Transition} {height : Nat}
    (h : m.step program = some t) (ht : ∀ place stack, t ≠ .faulted place .stackUnderflow stack)
    (hsize : height + m.stack.size < limit) : m.CallFits program height := by
  by_contra hfits
  rcases step_of_not_callFits hfits hsize with hnone | ⟨place, hfaulted⟩
  · cases h.symm.trans hnone
  · cases h.symm.trans hfaulted
    exact ht place m.stack rfl

theorem size_lt_of_inMemory {m : Machine} (h : (m.atop callers below).stack.InMemory) :
    below.size + m.stack.size < limit := by
  rw [← Operands.size_above]
  exact h.size_lt

/-- The run lemma: on top of callers a machine goes through the trace that it goes through alone. -/
theorem after_atop {m last : Machine} {j : Nat} (hm : m.frames ≠ [])
    (hmemory : (m.atop callers below).StaysInMemory program j)
    (h : m.after program j = some last) :
    (m.atop callers below).after program j = some (last.atop callers below) := by
  induction j generalizing m with
  | zero =>
    cases h
    rfl
  | succ j ih =>
    rw [after] at h
    split at h
    · rename_i next hmoved
      have hfits : m.CallFits program below.size :=
        callFits_of_step hmoved (fun _ _ h => by cases h) (size_lt_of_inMemory hmemory.here)
      have hover : (m.atop callers below).step program =
          some (.moved (next.atop callers below)) := by
        rw [step_atop hm hfits, hmoved]
        rfl
      rw [after_succ_of_moved j hover]
      exact ih (frames_ne_nil_of_step hmoved) (hmemory.tail hover) h
    · cases h

/-! ## Calls -/

/-- A call instruction puts the start of its routine on top of the caller. -/
theorem step_call {function : Nat} {routine : Routine} {args : Array Int32} {caller : Frame}
    {i : Instruction} (hroutine : program.routine? function = some routine)
    (hargs : args.size = routine.argCount) (hbase : caller.stackBase ≤ below.size)
    (hfetch : fetch program caller.function caller.pc = .ok i) (hop : i.op = .call)
    (hindex : i.immediate.toInt = function) (hmemory : (⟨below ++ args⟩ : Operands).InMemory) :
    step program ⟨caller :: callers, ⟨below ++ args⟩⟩ =
      some (.moved ((start function args).atop (caller :: callers) below)) := by
  have hcalled : called? program caller = some (function, routine) := by
    rw [called?_of_fetch hfetch hop, hindex, callee?, if_pos (Int.natCast_nonneg function),
      Int.toNat_natCast, hroutine]
    rfl
  have hsize : below.size + args.size < limit := by
    rw [← Array.size_append]
    exact hmemory.size_lt
  have hsplit : (⟨below ++ args⟩ : Operands).split .checked caller.stackBase routine.argCount =
      some (.ok (args, ⟨below⟩)) :=
    hargs ▸ Operands.split_append hbase (by omega) fun _ => hsize
  refine (stepIn_of_called .checked _ hcalled).trans ?_
  rw [hsplit]
  simp [enterWith, start, atop, Frame.raise, Operands.above, Operands.size]

/-- A nested call behaves like a call of its routine alone. After each number of instructions that
the latter executes, the former has executed one more, the call instruction, and stands on top of
the unchanged frames and operands of its callers. When the call alone finishes, the nested one is
back in its caller, which has moved past the call instruction and has the operands left by the
callee on top of its own. When the call alone faults, the nested one faults with it, as long as the
instruction is not a call for which the raised base and the number of arguments have no word as
their sum. At such a call the process is stopped, and the call alone fails for want of operands or
stops the process as well. -/
theorem nested_call_mirrors_start {function : Nat} {routine : Routine} {args : Array Int32}
    {caller : Frame} {i : Instruction} (hroutine : program.routine? function = some routine)
    (hargs : args.size = routine.argCount) (hbase : caller.stackBase ≤ below.size)
    (hfetch : fetch program caller.function caller.pc = .ok i) (hop : i.op = .call)
    (hindex : i.immediate.toInt = function) (j : Nat) (m : Machine)
    (hafter : (start function args).after program j = some m)
    (hmemory : StaysInMemory program (j + 1) ⟨caller :: callers, ⟨below ++ args⟩⟩) :
    let nested : Machine := ⟨caller :: callers, ⟨below ++ args⟩⟩
    let raised : Machine :=
      ⟨m.frames.map (fun frame => { frame with stackBase := below.size + frame.stackBase }) ++
        caller :: callers, ⟨below ++ m.stack.values⟩⟩
    nested.after program (j + 1) = some raised ∧
      (∀ value stack, m.step program = some (.finished value stack) →
        nested.after program (j + 2) =
          some ⟨{ caller with pc := caller.pc + 1 } :: callers, ⟨below ++ stack.values⟩⟩) ∧
      (m.CallFits program below.size →
        ∀ place fault stack, m.step program = some (.faulted place fault stack) →
          nested.EndsAfter program (j + 1) (.faulted place fault)) ∧
      (¬m.CallFits program below.size → raised.step program = none ∧
        (m.step program = none ∨
          ∃ place, m.step program = some (.faulted place .stackUnderflow m.stack))) := by
  intro nested raised
  have hstart : (start function args).frames ≠ [] := List.cons_ne_nil _ _
  have hm : m.frames ≠ [] := frames_ne_nil_of_after hstart hafter
  have hcall : nested.step program =
      some (.moved ((start function args).atop (caller :: callers) below)) :=
    step_call hroutine hargs hbase hfetch hop hindex hmemory.here
  have hnested : nested.after program (j + 1) = some raised :=
    (after_succ_of_moved j hcall).trans (after_atop hstart (hmemory.tail hcall) hafter)
  have hsize : below.size + m.stack.size < limit :=
    size_lt_of_inMemory (hmemory (j + 1) (Nat.le_refl _) raised hnested)
  have hstep (hfits : m.CallFits program below.size) : raised.step program =
      (m.step program).map (Transition.atop (caller :: callers) below) := step_atop hm hfits
  refine ⟨hnested, ?_, ?_, ?_⟩
  · intro value stack hfinished
    have hreturns := hstep (callFits_of_step hfinished (fun _ _ h => by cases h) hsize)
    rw [hfinished] at hreturns
    exact (after_add 1 hnested).trans (after_succ_of_moved 0 hreturns)
  · intro hfits place fault stack hfaulted
    exact ⟨raised, hnested, by rw [hstep hfits, hfaulted]; rfl⟩
  · intro hfits
    exact ⟨step_atop_of_not_callFits hfits, step_of_not_callFits hfits hsize⟩

end Machine

namespace Program

/-- A program of three routines: one that calls the second on top of an operand of its own, one that
adds one to its argument, and one that pops an operand it does not have. -/
def successor : Program where
  routines := #[
    { code := .ofInstructions #[{ op := .push, immediate := 7 }, { op := .push, immediate := 3 },
        { op := .call, immediate := 1 }, { op := .call, immediate := 2 }] },
    { code := .ofInstructions #[{ op := .push }, { op := .read }, { op := .push, immediate := 1 },
        { op := .add }, { op := .ret }]
      argCount := 1 },
    { code := .ofInstructions #[{ op := .pop }, { op := .ret }] }]
  exports := SortedMap.insert ∅ "main" 0

/-- A program whose third routine takes as many arguments as a word can count. The second one calls
it without operands of its own, on top of one operand of the first. -/
def greedy : Program where
  routines := #[
    { code := .ofInstructions #[{ op := .push, immediate := 5 }, { op := .call, immediate := 1 },
        { op := .ret }] },
    { code := .ofInstructions #[{ op := .call, immediate := 2 }, { op := .ret }] },
    { code := .ofInstructions #[{ op := .ret }]
      argCount := 18446744073709551615 }]
  exports := .ofList [("main", 0)]

end Program

namespace Machine

/-- On top of an operand of its caller the second routine of the first program leaves the successor of
its argument. The third one, which pops in a frame without operands, faults there as it does alone,
and does not take the operands of its caller. The second routine of the other program, which calls
without operands, stops the process. -/
theorem nested_call_mirrors_start_successor :
    after .successor 6 ⟨[⟨0, 2, ⟨#[]⟩, 0⟩], ⟨#[7, 3]⟩⟩ = some ⟨[⟨0, 3, ⟨#[]⟩, 0⟩], ⟨#[7, 4]⟩⟩ ∧
      EndsAfter .successor 1 ⟨[⟨0, 3, ⟨#[]⟩, 0⟩], ⟨#[7, 4]⟩⟩ (.faulted ⟨2, 0⟩ .stackUnderflow) ∧
      step .greedy ⟨[⟨1, 0, ⟨#[]⟩, 1⟩, ⟨0, 1, ⟨#[]⟩, 0⟩], ⟨#[5]⟩⟩ = none := by
  have hreturns : (start 1 #[3]).after .successor 4 = some ⟨[⟨1, 4, ⟨#[3]⟩, 0⟩], ⟨#[4]⟩⟩ := by
    decide +kernel
  refine ⟨?_, ?_, ?_⟩
  · obtain ⟨-, hfinished, -⟩ := @nested_call_mirrors_start .successor [] #[7] 1 _ #[3]
      ⟨0, 2, ⟨#[]⟩, 0⟩ _ rfl rfl (by decide) rfl rfl rfl 4 _ hreturns (by decide +kernel)
    exact hfinished 4 ⟨#[4]⟩ (by decide +kernel)
  · obtain ⟨-, -, hfaulted, -⟩ := @nested_call_mirrors_start .successor [] #[7, 4] 2 _ #[]
      ⟨0, 3, ⟨#[]⟩, 0⟩ _ rfl rfl (by decide) rfl rfl rfl 0 _ rfl (by decide +kernel)
    exact hfaulted (by decide +kernel) ⟨2, 0⟩ .stackUnderflow {} (by decide +kernel)
  · obtain ⟨-, -, -, hstopped⟩ := @nested_call_mirrors_start .greedy [] #[5] 1 _ #[]
      ⟨0, 1, ⟨#[]⟩, 0⟩ _ rfl rfl (by decide) rfl rfl rfl 0 _ rfl (by decide +kernel)
    exact (hstopped (by decide +kernel)).1

/-- Called alone, the second routine of the greedy program fails at once for want of operands. Called
from the first one, with an operand below, it does not fail there: the process is stopped, also if
it lets sums wrap around. -/
theorem nested_call_stops_greedy :
    Program.greedy.TrapFree ∧ Program.greedy.routine? 1 = some Program.greedy.routines[1] ∧
      Program.greedy.routines[1].argCount = 0 ∧
      fetch .greedy 0 1 = .ok { op := .call, immediate := 1 } ∧
      (start 0 #[]).after .greedy 1 = some ⟨[⟨0, 1, ⟨#[]⟩, 0⟩], ⟨#[5]⟩⟩ ∧
      (start 1 #[]).EndsAfter .greedy 0 (.faulted ⟨1, 0⟩ .stackUnderflow) ∧
      after .greedy 1 ⟨[⟨0, 1, ⟨#[]⟩, 0⟩], ⟨#[5]⟩⟩ =
        some ⟨[⟨1, 0, ⟨#[]⟩, 1⟩, ⟨0, 1, ⟨#[]⟩, 0⟩], ⟨#[5]⟩⟩ ∧
      ¬EndsAfter .greedy 1 ⟨[⟨0, 1, ⟨#[]⟩, 0⟩], ⟨#[5]⟩⟩ (.faulted ⟨1, 0⟩ .stackUnderflow) ∧
      stepIn .checked .greedy ⟨[⟨1, 0, ⟨#[]⟩, 1⟩, ⟨0, 1, ⟨#[]⟩, 0⟩], ⟨#[5]⟩⟩ = none ∧
      stepIn .wrapping .greedy ⟨[⟨1, 0, ⟨#[]⟩, 1⟩, ⟨0, 1, ⟨#[]⟩, 0⟩], ⟨#[5]⟩⟩ = none := by
  have hnested : after .greedy 1 ⟨[⟨0, 1, ⟨#[]⟩, 0⟩], ⟨#[5]⟩⟩ =
      some ⟨[⟨1, 0, ⟨#[]⟩, 1⟩, ⟨0, 1, ⟨#[]⟩, 0⟩], ⟨#[5]⟩⟩ := by decide +kernel
  have hstopped : step .greedy ⟨[⟨1, 0, ⟨#[]⟩, 1⟩, ⟨0, 1, ⟨#[]⟩, 0⟩], ⟨#[5]⟩⟩ = none := by
    decide +kernel
  refine ⟨by decide +kernel, by decide +kernel, rfl, rfl, by decide +kernel,
    ⟨_, rfl, by decide +kernel⟩, hnested, ?_, hstopped, by decide +kernel⟩
  rintro ⟨last, hlast, hending⟩
  cases hnested.symm.trans hlast
  rw [hstopped] at hending
  cases hending

end Machine

end BytecodeDebugger
