import BytecodeDebugger.Machine.Step
import BytecodeDebugger.Proofs.Patching

/-!
# The trace of a machine

`Machine.after` follows a machine instruction by instruction. Over a program as it was written this
is the trace that a debugger must not disturb. Over the same program with breakpoints in it, a
machine either stands on a patched location, where it is trapped and does not change, or takes the
step it would take without them: `step_eq` says so, and it is all that is needed of single
instructions.
-/

namespace BytecodeDebugger

/-- How a call ended. -/
inductive Ending where
  /-- The outermost frame returned this value. -/
  | returned (value : Int32)
  /-- The instruction at this place failed. -/
  | faulted (place : Location) (fault : Fault)
  deriving DecidableEq

namespace Transition

/-- How the call ended by an instruction, if it did. -/
def ending? : Transition → Option Ending
  | .finished value _ => some (.returned value)
  | .faulted place fault _ => some (.faulted place fault)
  | _ => none

end Transition

namespace Machine

/-- The machine after so many instructions, if each of them moved on. -/
def after (program : Program) : Nat → Machine → Option Machine
  | 0, m => some m
  | k + 1, m =>
    match m.step program with
    | some (.moved m) => after program k m
    | _ => none

/-- The call ends by the instruction that follows so many others. -/
def EndsAfter (program : Program) (k : Nat) (m : Machine) (ending : Ending) : Prop :=
  ∃ last, m.after program k = some last ∧ (last.step program).bind Transition.ending? = some ending

/-- Whether the innermost frame stands on a patched location. -/
def onPatch (program : Program) (m : Machine) : Bool :=
  m.location?.any program.isPatched

theorem after_succ_of_moved {program : Program} {m next : Machine} (k : Nat)
    (h : m.step program = some (.moved next)) : m.after program (k + 1) = next.after program k := by
  rw [after, h]

/-- So many instructions and then so many more are their sum. -/
theorem after_add {program : Program} {m next : Machine} {j : Nat} (k : Nat)
    (h : m.after program j = some next) : m.after program (j + k) = next.after program k := by
  induction j generalizing m with
  | zero =>
    rw [after, Option.some.injEq] at h
    rw [h, Nat.zero_add]
  | succ j ih =>
    rw [after] at h
    split at h
    · rename_i m₁ hmoved
      rw [Nat.add_right_comm, after_succ_of_moved _ hmoved]
      exact ih h
    · cases h

/-- The last of so many instructions. -/
theorem exists_step_of_after_succ {program : Program} {m last : Machine} {k : Nat}
    (h : m.after program (k + 1) = some last) :
    ∃ before, m.after program k = some before ∧ before.step program = some (.moved last) := by
  induction k generalizing m with
  | zero =>
    rw [after] at h
    split at h
    · rename_i next hmoved
      cases h
      exact ⟨m, rfl, hmoved⟩
    · cases h
  | succ k ih =>
    rw [after] at h
    split at h
    · rename_i next hmoved
      obtain ⟨before, hbefore, hlast⟩ := ih h
      exact ⟨before, (after_succ_of_moved k hmoved).trans hbefore, hlast⟩
    · cases h

theorem EndsAfter.of_after {program : Program} {m next : Machine} {j k : Nat} {ending : Ending}
    (h : m.after program j = some next) (hend : next.EndsAfter program k ending) :
    m.EndsAfter program (j + k) ending := by
  obtain ⟨last, hlast, hending⟩ := hend
  exact ⟨last, (after_add k h).trans hlast, hending⟩

/-- After an instruction a machine has a frame to go on in, or its call ended, or it is trapped,
unless the process was stopped. -/
theorem proceed_cases {arithmetic : WordArithmetic} {program : Program} {place : Location}
    {callers : List Frame} {effect : Effect} {t : Transition}
    (h : proceed arithmetic program place callers effect = some t) :
    (∃ next, t = .moved next ∧ next.frames ≠ []) ∨ (∃ ending, t.ending? = some ending) ∨
      effect.outcome = .ok .halt ∧ t = .trapped ⟨effect.frame :: callers, effect.stack⟩ := by
  obtain ⟨outcome, frame, stack⟩ := effect
  match outcome with
  | .error fault =>
    cases h
    exact .inr (.inl ⟨_, rfl⟩)
  | .ok (.next pc) =>
    cases h
    exact .inl ⟨_, rfl, List.cons_ne_nil _ _⟩
  | .ok (.call index) =>
    simp only [proceed, enter] at h
    split at h
    · cases h
      exact .inr (.inl ⟨_, rfl⟩)
    · obtain ⟨taken, -, rfl⟩ := Option.map_eq_some_iff.mp h
      cases taken with
      | error fault => exact .inr (.inl ⟨_, rfl⟩)
      | ok taken => exact .inl ⟨_, rfl, List.cons_ne_nil _ _⟩
  | .ok .ret =>
    cases callers with
    | nil =>
      cases h
      exact .inr (.inl ⟨_, rfl⟩)
    | cons caller rest =>
      cases h
      exact .inl ⟨_, rfl, List.cons_ne_nil _ _⟩
  | .ok .halt =>
    cases h
    exact .inr (.inr ⟨rfl, rfl⟩)

/-- A machine that moved on has a frame. -/
theorem frames_ne_nil_of_step {program : Program} {m next : Machine}
    (h : m.step program = some (.moved next)) : next.frames ≠ [] := by
  obtain ⟨frames, stack⟩ := m
  cases frames with
  | nil => cases h
  | cons frame callers =>
    simp only [step, stepIn] at h
    split at h
    · cases h
    · rcases proceed_cases h with ⟨next', hmoved, hne⟩ | ⟨ending, hending⟩ | ⟨-, htrapped⟩
      · cases hmoved
        exact hne
      · cases hending
      · cases htrapped

/-- A trace keeps a frame. -/
theorem frames_ne_nil_of_after {program : Program} {m next : Machine} {k : Nat}
    (hm : m.frames ≠ []) (h : m.after program k = some next) : next.frames ≠ [] := by
  induction k generalizing m with
  | zero =>
    rw [after, Option.some.injEq] at h
    rwa [← h]
  | succ k ih =>
    rw [after] at h
    split at h
    · rename_i m₁ hmoved
      exact ih (frames_ne_nil_of_step hmoved) h
    · cases h

/-! ## Programs with breakpoints in them -/

theorem callee?_unpatched (p : Program) (index : Int) :
    callee? p.unpatched index = (callee? p index).map fun (i, r) => (i, r.unpatched) := by
  rw [callee?, callee?, Program.routine?_unpatched]
  split
  · simp [Option.map_map, Function.comp_def]
  · rfl

/-- Calls are entered in the same way whatever is patched. -/
theorem enter_unpatched (arithmetic : WordArithmetic) (p : Program) (index : Int) (frame : Frame)
    (callers : List Frame) (stack : Operands) :
    enter arithmetic p.unpatched index frame callers stack =
      enter arithmetic p index frame callers stack := by
  rw [enter, enter, callee?_unpatched]
  cases callee? p index with
  | none => rfl
  | some callee => rfl

theorem proceed_unpatched (arithmetic : WordArithmetic) (p : Program) (place : Location)
    (callers : List Frame) (effect : Effect) :
    proceed arithmetic p.unpatched place callers effect =
      proceed arithmetic p place callers effect := by
  obtain ⟨outcome, frame, stack⟩ := effect
  cases outcome with
  | error fault => rfl
  | ok outcome =>
    cases outcome with
    | next pc => rfl
    | call index => exact enter_unpatched arithmetic p index frame callers stack
    | ret => rfl
    | halt => rfl

/-- What is fetched where nothing is patched is what was written. -/
theorem fetch_unpatched {p : Program} {function pc : Nat}
    (h : p.isPatched ⟨function, pc⟩ = false) :
    fetch p.unpatched function pc = fetch p function pc := by
  rw [fetch, fetch, Program.routine?_unpatched]
  rw [Program.isPatched] at h
  cases hr : p.routine? function with
  | none => rfl
  | some r =>
    rw [hr] at h
    have hfree : r.code.isPatched pc = false := h
    simp only [Option.map_some, Routine.unpatched, Code.get?_restoreAll]
    rw [Code.get?_eq, hfree]
    rfl

theorem fetch_of_isPatched {p : Program} {function pc : Nat}
    (h : p.isPatched ⟨function, pc⟩ = true) : fetch p function pc = .ok Instruction.breakpoint := by
  obtain ⟨r, hr, hpatched⟩ := (Option.any_eq_true _ _).mp h
  rw [fetch]
  simp only at hr hpatched
  rw [hr]
  simp only [Code.get?_eq, hpatched, if_true]

/-- A machine on a patched location is trapped as it is; elsewhere it takes the step it would take
over the program as it was written. -/
theorem step_eq (p : Program) (m : Machine) :
    m.step p = if m.onPatch p then some (.trapped m) else m.step p.unpatched := by
  obtain ⟨frames, stack⟩ := m
  cases frames with
  | nil => rfl
  | cons frame callers =>
    have hpatch : onPatch p ⟨frame :: callers, stack⟩ = p.isPatched ⟨frame.function, frame.pc⟩ := rfl
    rw [hpatch]
    split
    · rename_i h
      simp only [step, stepIn, fetch_of_isPatched h]
      rfl
    · rename_i h
      have hfree : p.isPatched ⟨frame.function, frame.pc⟩ = false := by simpa using h
      simp only [step, stepIn, fetch_unpatched hfree, proceed_unpatched]

/-! ## How an instruction goes on -/

section Outcomes

variable {outcome : Outcome} {frame : Frame} {stack : Operands}

theorem next_of_jumpTarget {pc : Nat} {offset : Int32}
    (h : Execute.jumpTarget pc offset = .ok outcome) : ∃ target, outcome = .next target := by
  simp only [Execute.jumpTarget] at h
  split at h
  · cases h
    exact ⟨_, rfl⟩
  · cases h

theorem next_of_unary {f : Int32 → Int32}
    (h : (Execute.unary f frame stack).outcome = .ok outcome) : ∃ pc, outcome = .next pc := by
  rw [Execute.unary] at h
  split at h
  · cases h
  · cases h
    exact ⟨_, rfl⟩

theorem next_of_binary {f : Int32 → Int32 → Except Fault Int32}
    (h : (Execute.binary f frame stack).outcome = .ok outcome) : ∃ pc, outcome = .next pc := by
  rw [Execute.binary] at h
  split at h
  · cases h
  · split at h
    · cases h
    · split at h
      · cases h
      · cases h
        exact ⟨_, rfl⟩

theorem next_of_jumpIf {taken : Int32 → Bool} {offset : Int32}
    (h : (Execute.jumpIf taken offset frame stack).outcome = .ok outcome) :
    ∃ pc, outcome = .next pc := by
  rw [Execute.jumpIf] at h
  split at h
  · cases h
  · simp only at h
    split at h
    · exact next_of_jumpTarget h
    · cases h
      exact ⟨_, rfl⟩

theorem next_of_read {offset : Int32}
    (h : (Execute.read offset frame stack).outcome = .ok outcome) : ∃ pc, outcome = .next pc := by
  rw [Execute.read] at h
  split at h
  · cases h
  · split at h
    · cases h
    · cases h
      exact ⟨_, rfl⟩

theorem next_of_write {offset : Int32}
    (h : (Execute.write offset frame stack).outcome = .ok outcome) : ∃ pc, outcome = .next pc := by
  rw [Execute.write] at h
  split at h
  · cases h
  · split at h
    · cases h
    · split at h
      · cases h
      · cases h
        exact ⟨_, rfl⟩

theorem next_of_discard {count : Int32}
    (h : (Execute.discard count frame stack).outcome = .ok outcome) : ∃ pc, outcome = .next pc := by
  rw [Execute.discard] at h
  split at h
  · cases h
  · cases h
    exact ⟨_, rfl⟩

/-- An instruction goes on in its routine, or it is a trap, a call or a return, which leave the frame
and the operands to the machine. -/
theorem outcome_execute {i : Instruction} (h : (execute i frame stack).outcome = .ok outcome) :
    (∃ pc, outcome = .next pc) ∨
      (i.op = .trap ∧ execute i frame stack = ⟨.ok .halt, frame, stack⟩) ∨
      (i.op = .call ∧ execute i frame stack = ⟨.ok (.call i.immediate.toInt), frame, stack⟩) ∨
      (i.op = .ret ∧ execute i frame stack = ⟨.ok .ret, frame, stack⟩) := by
  cases hop : i.op <;> simp only [execute, hop] at h ⊢
  case trap => simp
  case call => simp
  case ret => simp
  case noop | push =>
    cases h
    exact .inl ⟨_, rfl⟩
  case jump => exact .inl (next_of_jumpTarget h)
  case jumpZero | jumpNonzero => exact .inl (next_of_jumpIf h)
  case truth | negate => exact .inl (next_of_unary h)
  case read => exact .inl (next_of_read h)
  case write => exact .inl (next_of_write h)
  case pop => exact .inl (next_of_discard h)
  all_goals exact .inl (next_of_binary h)

end Outcomes

/-! ## Traps -/

/-- What an instruction does to a machine with a frame, unless it stops the process: the machine moves
on into a frame, its call ends, or it is trapped and left as it was. -/
theorem step_cases {program : Program} {m : Machine} {t : Transition} (hm : m.frames ≠ [])
    (h : m.step program = some t) :
    (∃ next, t = .moved next ∧ next.frames ≠ []) ∨ (∃ ending, t.ending? = some ending) ∨
      t = .trapped m := by
  obtain ⟨frames, stack⟩ := m
  cases frames with
  | nil => exact absurd rfl hm
  | cons frame callers =>
    simp only [step, stepIn] at h
    split at h
    · cases h
      exact .inr (.inl ⟨_, rfl⟩)
    · rcases proceed_cases h with hmoved | hending | ⟨hhalt, htrapped⟩
      · exact .inl hmoved
      · exact .inr (.inl hending)
      · refine .inr (.inr ?_)
        rcases outcome_execute hhalt with ⟨pc, hnext⟩ | ⟨-, htrap⟩ | ⟨-, hcall⟩ | ⟨-, hreturn⟩
        · cases hnext
        · rw [htrapped, htrap]
        · rw [hcall] at hhalt
          cases hhalt
        · rw [hreturn] at hhalt
          cases hhalt

/-- A trapped machine is left as it was. -/
theorem eq_of_trapped {program : Program} {m m' : Machine}
    (h : m.step program = some (.trapped m')) : m' = m := by
  obtain ⟨frames, stack⟩ := m
  cases frames with
  | nil => cases h
  | cons frame callers =>
    rcases step_cases (List.cons_ne_nil _ _) h with ⟨next, hmoved, -⟩ | ⟨ending, hending⟩ | htrapped
    · cases hmoved
    · cases hending
    · cases htrapped
      rfl

/-! ## Programs written without traps -/

/-- An instruction that is not a trap does not halt. -/
theorem outcome_execute_ne_halt {i : Instruction} (h : i.op ≠ .trap) (frame : Frame)
    (stack : Operands) : (execute i frame stack).outcome ≠ .ok .halt := by
  intro hhalt
  rcases outcome_execute hhalt with ⟨pc, hnext⟩ | ⟨htrap, -⟩ | ⟨-, hcall⟩ | ⟨-, hreturn⟩
  · cases hnext
  · exact h htrap
  · rw [hcall] at hhalt
    cases hhalt
  · rw [hreturn] at hhalt
    cases hhalt

/-- What is fetched from a program as it was written is what was written. -/
theorem instructionAt?_of_fetch {p : Program} {function pc : Nat} {i : Instruction}
    (h : fetch p.unpatched function pc = .ok i) : p.instructionAt? ⟨function, pc⟩ = some i := by
  rw [fetch, Program.routine?_unpatched] at h
  rw [Program.instructionAt?]
  cases hr : p.routine? function with
  | none => simp [hr] at h
  | some r =>
    simp only [hr, Option.map_some, Routine.unpatched, Code.get?_restoreAll] at h
    split at h
    · cases h
    · rename_i j hj
      cases h
      exact hj

/-- What was written is what is fetched from a program as it was written. -/
theorem fetch_of_instructionAt? {p : Program} {function pc : Nat} {i : Instruction}
    (h : p.instructionAt? ⟨function, pc⟩ = some i) : fetch p.unpatched function pc = .ok i := by
  obtain ⟨r, hr, hcode⟩ := Option.bind_eq_some_iff.mp h
  simp only at hr hcode
  rw [fetch, Program.routine?_unpatched, hr]
  simp only [Option.map_some, Routine.unpatched, Code.get?_restoreAll, hcode]

/-- Over a program written without traps, and without its breakpoints, a machine with a frame moves
on or ends its call, unless the process is stopped. -/
theorem step_unpatched_cases {p : Program} (hfree : p.TrapFree) {m : Machine} {t : Transition}
    (hm : m.frames ≠ []) (h : m.step p.unpatched = some t) :
    (∃ next, t = .moved next) ∨ ∃ ending, t.ending? = some ending := by
  obtain ⟨frames, stack⟩ := m
  cases frames with
  | nil => exact absurd rfl hm
  | cons frame callers =>
    simp only [step, stepIn] at h
    split at h
    · cases h
      exact .inr ⟨_, rfl⟩
    · rename_i i hfetch
      rcases proceed_cases h with ⟨next, hmoved, -⟩ | hending | ⟨hhalt, -⟩
      · exact .inl ⟨next, hmoved⟩
      · exact .inr hending
      · exact absurd hhalt
          (outcome_execute_ne_halt (hfree _ _ (instructionAt?_of_fetch hfetch)) frame stack)

/-! ## Runs -/

/-- A run executes instructions that move on, and then one that does not. -/
theorem run_eq_some_iff {program : Program} {fuel : Nat} {m : Machine} {t : Transition} :
    m.run program fuel = some t ↔
      ∃ k last, k < fuel ∧ m.after program k = some last ∧ last.step program = some t ∧
        ∀ next, t ≠ .moved next := by
  induction fuel generalizing m with
  | zero => simp [run]
  | succ fuel ih =>
    rw [run]
    split
    · rename_i next hmoved
      rw [ih]
      constructor
      · rintro ⟨k, last, hk, hafter, hlast⟩
        exact ⟨k + 1, last, by omega, (after_succ_of_moved k hmoved).trans hafter, hlast⟩
      · rintro ⟨k, last, hk, hafter, hlast, hne⟩
        cases k with
        | zero =>
          cases hafter
          cases hlast.symm.trans hmoved
          exact absurd rfl (hne next)
        | succ k =>
          rw [after_succ_of_moved k hmoved] at hafter
          exact ⟨k, last, by omega, hafter, hlast, hne⟩
    · rename_i hother
      constructor
      · intro h
        refine ⟨0, m, by omega, rfl, h, ?_⟩
        rintro next rfl
        exact hother next h
      · rintro ⟨k, last, hk, hafter, hlast, hne⟩
        cases k with
        | zero =>
          cases hafter
          rw [hlast]
        | succ k =>
          rw [after] at hafter
          split at hafter
          · rename_i next hmoved
            exact absurd hmoved (hother next)
          · cases hafter

/-- A larger bound does not change how a run ends. -/
theorem run_mono {program : Program} {fuel fuel' : Nat} {m : Machine} {t : Transition}
    (hle : fuel ≤ fuel') (h : m.run program fuel = some t) : m.run program fuel' = some t := by
  obtain ⟨k, last, hk, hlast⟩ := run_eq_some_iff.mp h
  exact run_eq_some_iff.mpr ⟨k, last, by omega, hlast⟩

/-- Instructions that moved on with breakpoints in the program do so without them. -/
theorem after_unpatched {p : Program} {m last : Machine} {k : Nat} (h : m.after p k = some last) :
    m.after p.unpatched k = some last := by
  induction k generalizing m with
  | zero => exact h
  | succ k ih =>
    rw [after] at h
    split at h
    · rename_i next hmoved
      rw [step_eq] at hmoved
      split at hmoved
      · cases hmoved
      · rw [after_succ_of_moved k hmoved]
        exact ih h
    · cases h

end Machine

end BytecodeDebugger
