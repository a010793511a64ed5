import BytecodeDebugger.Debugger.Basic
import BytecodeDebugger.Proofs.RunRequest

/-!
# What breakpoints do to a debuggee

The operations of a debugger that run nothing. None of them touches the call in progress or the
program as it was written, and each adds to the patched locations or takes from them what its set of
breakpoints says.
-/

namespace BytecodeDebugger

namespace Debugger

open Debuggee (SameCall)

/-! ## The call in progress -/

theorem sameCall_restoreFrame (d : Debugger) (frame : FrameInfo) :
    SameCall d.vm (d.restoreFrame frame).2.vm := by
  rw [restoreFrame]
  split
  · exact d.vm.sameCall_restore frame.location
  · exact .refl d.vm

theorem sameCall_rearm (d : Debugger) (frame : FrameInfo) : SameCall d.vm (d.rearm frame).vm := by
  rw [rearm]
  split
  · exact d.vm.sameCall_patch frame.location
  · exact .refl d.vm

theorem sameCall_rearmAll (d : Debugger) : SameCall d.vm d.rearmAll.vm := by
  have hfold (places : List Location) (e : Debugger) (h : SameCall d.vm e.vm) :
      SameCall d.vm (places.foldl (fun e place => (e.patch place).2) e).vm := by
    induction places generalizing e with
    | nil => exact h
    | cons place rest ih => exact ih _ (h.trans (e.vm.sameCall_patch place))
  exact hfold _ d (.refl d.vm)

theorem sameCall_set (d : Debugger) (place : Location) : SameCall d.vm (d.set place).vm :=
  d.vm.sameCall_patch place

theorem sameCall_remove (d : Debugger) (place : Location) : SameCall d.vm (d.remove place).vm :=
  d.vm.sameCall_restore place

/-- Registering a line sets the breakpoint on its code, of which there is at most one. -/
theorem setLine_eq (d : Debugger) (line : SourceLine) :
    ∃ places : List Location, (d.setLine line).2 =
      places.foldl set
        { d with lineBreakpoints := d.lineBreakpoints.insert line (d.resolve? line) } := by
  simp only [setLine]
  split
  · rename_i place hplace
    exact ⟨[place], rfl⟩
  · exact ⟨[], rfl⟩

/-- Forgetting a line removes the breakpoints on its code, of which there are at most two. -/
theorem removeLine_eq (d : Debugger) (line : SourceLine) :
    ∃ places : List Location, d.removeLine line =
      places.foldl remove { d with lineBreakpoints := d.lineBreakpoints.erase line } := by
  simp only [removeLine]
  cases d.resolve? line with
  | none =>
    cases (d.lineBreakpoints.get? line).join with
    | none => exact ⟨[], rfl⟩
    | some previous => exact ⟨[previous], rfl⟩
  | some current =>
    cases (d.lineBreakpoints.get? line).join with
    | none => exact ⟨[current], rfl⟩
    | some previous =>
      simp only [Option.some.injEq]
      split
      · exact ⟨[current], rfl⟩
      · exact ⟨[current, previous], rfl⟩

/-- What setting a breakpoint preserves, and what does not depend on the line table, is preserved by
registering a line. -/
theorem setLine_induction {P : Debugger → Prop} {d : Debugger} (line : SourceLine)
    (hlines : ∀ lines, P { d with lineBreakpoints := lines })
    (hset : ∀ e place, P e → P (e.set place)) : P (d.setLine line).2 := by
  obtain ⟨places, heq⟩ := d.setLine_eq line
  rw [heq]
  exact List.foldlRecOn places set (hlines _) fun e he place _ => hset e place he

/-- What removing a breakpoint preserves, and what does not depend on the line table, is preserved by
forgetting a line. -/
theorem removeLine_induction {P : Debugger → Prop} {d : Debugger} (line : SourceLine)
    (hlines : ∀ lines, P { d with lineBreakpoints := lines })
    (hremove : ∀ e place, P e → P (e.remove place)) : P (d.removeLine line) := by
  obtain ⟨places, heq⟩ := d.removeLine_eq line
  rw [heq]
  exact List.foldlRecOn places remove (hlines _) fun e he place _ => hremove e place he

theorem sameCall_setLine (d : Debugger) (line : SourceLine) :
    SameCall d.vm (d.setLine line).2.vm :=
  setLine_induction (P := fun e => SameCall d.vm e.vm) line (fun _ => .refl d.vm)
    fun e place h => h.trans (e.sameCall_set place)

theorem sameCall_removeLine (d : Debugger) (line : SourceLine) :
    SameCall d.vm (d.removeLine line).vm :=
  removeLine_induction (P := fun e => SameCall d.vm e.vm) line (fun _ => .refl d.vm)
    fun e place h => h.trans (e.sameCall_remove place)

theorem vm_foldl_relocate (lines : List SourceLine) (d : Debugger) :
    (lines.foldl relocate d).vm = d.vm := by
  induction lines generalizing d with
  | nil => rfl
  | cons line rest ih => exact ih (d.relocate line)

/-- Loading at the level of a debugger is loading into its debuggee, as far as the call goes. -/
theorem sameCall_load (d : Debugger) (program : Program) :
    SameCall (d.vm.load program).2 (d.load program).2.vm := by
  have harm := ((d.lineBreakpoints.keys.foldl relocate
    { d with vm := (d.vm.load program).2 })).sameCall_rearmAll
  rw [vm_foldl_relocate] at harm
  exact harm

/-! ## The patched locations -/

/-- Whether a location is a breakpoint of the loaded program: in the set and within range. -/
def isBreakpoint (d : Debugger) (place : Location) : Bool :=
  d.hasBreakpoint place && d.vm.hasAddress place

/-- The set and the program as it was written say what the breakpoints are. -/
theorem isBreakpoint_of_sameCall {d d' : Debugger} (hsame : SameCall d.vm d'.vm)
    (hset : d'.breakpoints = d.breakpoints) (place : Location) :
    d'.isBreakpoint place = d.isBreakpoint place := by
  rw [isBreakpoint, hasBreakpoint, hset, hsame.hasAddress]
  rfl

/-- Every trap in the loaded program belongs to a breakpoint. -/
def Covered (d : Debugger) : Prop :=
  ∀ place, d.vm.isPatched place = true → d.hasBreakpoint place = true

theorem isPatched_restoreFrame (d : Debugger) (frame : FrameInfo) (place : Location) :
    (d.restoreFrame frame).2.vm.isPatched place =
      (d.vm.isPatched place && !(d.isCurrent frame && decide (frame.location = place))) := by
  rw [restoreFrame]
  split
  · rename_i hcurrent
    have hrestore := d.vm.isPatched_restore frame.location place
    rw [hcurrent, Bool.true_and, Bool.and_comm, ← decide_not]
    exact hrestore
  · rename_i hstale
    simp [hstale]

theorem restoreFrame_fst (d : Debugger) (frame : FrameInfo) :
    (d.restoreFrame frame).1 = (d.isCurrent frame && d.vm.isPatched frame.location) := by
  rw [restoreFrame]
  split
  · rename_i hcurrent
    rw [hcurrent, Bool.true_and]
    exact d.vm.restore_fst frame.location
  · rename_i hstale
    simp [hstale]

theorem isPatched_rearm (d : Debugger) (frame : FrameInfo) (place : Location) :
    (d.rearm frame).vm.isPatched place =
      (d.vm.isPatched place ||
        (d.isCurrent frame && decide (frame.location = place) && d.isBreakpoint place)) := by
  rw [rearm]
  split
  · rename_i harmed
    obtain ⟨hcurrent, hset⟩ := Bool.and_eq_true_iff.mp harmed
    have hpatch := d.vm.isPatched_patch frame.location place
    rw [hcurrent, Bool.true_and]
    refine hpatch.trans ?_
    by_cases hplace : frame.location = place
    · subst hplace
      simp [isBreakpoint, hset]
    · simp [hplace]
  · rename_i hidle
    by_cases hplace : frame.location = place
    · subst hplace
      cases hcurrent : d.isCurrent frame <;> simp_all [isBreakpoint]
    · simp [hplace]

/-- Patching a list of locations adds those within range to the patched ones. -/
theorem isPatched_foldl_patch (places : List Location) (d : Debugger) (place : Location) :
    (places.foldl (fun d place => (d.patch place).2) d).vm.isPatched place =
      (d.vm.isPatched place || (decide (place ∈ places) && d.vm.hasAddress place)) := by
  induction places generalizing d with
  | nil => simp
  | cons first rest ih =>
    have haddress : (d.patch first).2.vm.hasAddress place = d.vm.hasAddress place :=
      (d.vm.sameCall_patch first).hasAddress place
    have hpatch : (d.patch first).2.vm.isPatched place =
        (d.vm.isPatched place || (decide (first = place) && d.vm.hasAddress first)) :=
      d.vm.isPatched_patch first place
    rw [List.foldl_cons, ih, haddress, hpatch]
    by_cases hplace : first = place
    · subst hplace
      cases d.vm.isPatched first <;> cases d.vm.hasAddress first <;> simp
    · have hne : place ≠ first := fun h => hplace h.symm
      simp [hplace, hne]

@[simp]
theorem breakpoints_restoreFrame (d : Debugger) (frame : FrameInfo) :
    (d.restoreFrame frame).2.breakpoints = d.breakpoints := by
  rw [restoreFrame]
  split <;> rfl

@[simp]
theorem breakpoints_rearm (d : Debugger) (frame : FrameInfo) :
    (d.rearm frame).breakpoints = d.breakpoints := by
  rw [rearm]
  split <;> rfl

@[simp]
theorem breakpoints_rearmAll (d : Debugger) : d.rearmAll.breakpoints = d.breakpoints := by
  have hfold (places : List Location) (e : Debugger) :
      (places.foldl (fun e place => (e.patch place).2) e).breakpoints = e.breakpoints := by
    induction places generalizing e with
    | nil => rfl
    | cons place rest ih => exact ih (e.patch place).2
  exact hfold _ d

/-- Arming everything patches exactly the breakpoints that are within range. -/
theorem isPatched_rearmAll (d : Debugger) (place : Location) :
    d.rearmAll.vm.isPatched place = (d.vm.isPatched place || d.isBreakpoint place) := by
  have hkeys : decide (place ∈ d.breakpoints.keys) = d.hasBreakpoint place := by
    rw [Bool.eq_iff_iff, decide_eq_true_iff]
    exact SortedMap.mem_keys
  rw [rearmAll, isPatched_foldl_patch, hkeys]
  rfl

theorem hasBreakpoint_set (d : Debugger) (place other : Location) :
    (d.set place).hasBreakpoint other = (decide (place = other) || d.hasBreakpoint other) :=
  SortedMap.contains_insert d.breakpoints place other ()

theorem hasBreakpoint_remove (d : Debugger) (place other : Location) :
    (d.remove place).hasBreakpoint other = (decide (place ≠ other) && d.hasBreakpoint other) :=
  SortedMap.contains_erase d.breakpoints place other

theorem isPatched_set (d : Debugger) (place other : Location) :
    (d.set place).vm.isPatched other =
      (d.vm.isPatched other || (decide (place = other) && d.vm.hasAddress place)) :=
  d.vm.isPatched_patch place other

theorem isPatched_remove (d : Debugger) (place other : Location) :
    (d.remove place).vm.isPatched other = (decide (place ≠ other) && d.vm.isPatched other) :=
  d.vm.isPatched_restore place other

/-- In a program that was loaded unpatched, exactly the breakpoints within range are patched. -/
theorem isPatched_load (d : Debugger) {program : Program} (hplain : program.IsPlain)
    (place : Location) :
    (d.load program).2.vm.isPatched place = (d.load program).2.isBreakpoint place := by
  let e := d.lineBreakpoints.keys.foldl relocate { d with vm := (d.vm.load program).2 }
  have hload : (d.load program).2 = e.rearmAll := rfl
  have hvm : e.vm = (d.vm.load program).2 := vm_foldl_relocate _ _
  have hfree : e.vm.isPatched place = false := by
    rw [hvm]
    exact hplain place
  have hkept : e.rearmAll.isBreakpoint place = e.isBreakpoint place := by
    rw [isBreakpoint, isBreakpoint, hasBreakpoint, hasBreakpoint, breakpoints_rearmAll,
      e.sameCall_rearmAll.hasAddress]
  rw [hload, isPatched_rearmAll, hfree, Bool.false_or, hkept]

/-! ## The breakpoints without a trap -/

/-- A change of the set or of the patches after which no breakpoint is without a trap that was not so
before. -/
def FreesNone (d d' : Debugger) : Prop :=
  ∀ place, d'.isBreakpoint place = true → d'.vm.isPatched place = false →
    d.isBreakpoint place = true ∧ d.vm.isPatched place = false

/-- A change that takes no trap out frees nothing, if it leaves the set alone. -/
theorem freesNone_of_isPatched {d d' : Debugger} (hset : d'.breakpoints = d.breakpoints)
    (hsame : SameCall d.vm d'.vm)
    (hpatched : ∀ place, d.vm.isPatched place = true → d'.vm.isPatched place = true) :
    d.FreesNone d' := by
  intro place hplace hfree
  refine ⟨?_, ?_⟩
  · rwa [isBreakpoint_of_sameCall hsame hset] at hplace
  · cases hbefore : d.vm.isPatched place with
    | false => rfl
    | true =>
      rw [hpatched place hbefore] at hfree
      cases hfree

theorem freesNone_rearm (d : Debugger) (frame : FrameInfo) : d.FreesNone (d.rearm frame) := by
  apply freesNone_of_isPatched (breakpoints_rearm d frame) (d.sameCall_rearm frame)
  intro place hplace
  rw [isPatched_rearm, hplace, Bool.true_or]

theorem freesNone_rearmAll (d : Debugger) : d.FreesNone d.rearmAll := by
  apply freesNone_of_isPatched (breakpoints_rearmAll d) d.sameCall_rearmAll
  intro place hplace
  rw [isPatched_rearmAll, hplace, Bool.true_or]

theorem freesNone_set (d : Debugger) (place : Location) : d.FreesNone (d.set place) := by
  intro other hother hfree
  rw [isBreakpoint, hasBreakpoint_set, (d.sameCall_set place).hasAddress, Bool.and_eq_true_iff,
    Bool.or_eq_true_iff, decide_eq_true_iff] at hother
  rw [isPatched_set, Bool.or_eq_false_iff] at hfree
  refine ⟨?_, hfree.1⟩
  rcases hother with ⟨rfl | hset, haddress⟩
  · simp [haddress] at hfree
  · rw [isBreakpoint, hset, haddress]
    rfl

theorem freesNone_remove (d : Debugger) (place : Location) : d.FreesNone (d.remove place) := by
  intro other hother hfree
  rw [isBreakpoint, hasBreakpoint_remove, (d.sameCall_remove place).hasAddress,
    Bool.and_eq_true_iff, Bool.and_eq_true_iff] at hother
  obtain ⟨⟨hne, hset⟩, haddress⟩ := hother
  rw [isPatched_remove, hne, Bool.true_and] at hfree
  refine ⟨?_, hfree⟩
  rw [isBreakpoint, hset, haddress]
  rfl

end Debugger

end BytecodeDebugger
