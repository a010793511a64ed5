import BytecodeDebugger.Proofs.CallStack
import BytecodeDebugger.Proofs.HeardRuns

/-!
# Frames of programs that are no longer loaded

Loaded programs are numbered in order, and a frame carries the number of its program. A session that
loads fewer programs than there are numbers never gives a number twice, so every frame that was shown
before the last load is told from those of the loaded program: restoring or rearming it changes
nothing, and it has no routine, no span and no source line.

## Implementation notes

The number of the loaded program is one less than the number of loads, but before the first load the
debuggee shows the number that the first program gets. Nothing is executed without a program, so no
frame has that number before the first load.
-/

namespace BytecodeDebugger

namespace Debuggee

variable {vm vm' vm₁ running : Debuggee} {frame : FrameInfo} {loads : Nat}

/-- A debuggee shows a frame: on its call stack, or in a halt that the consumer heard of. -/
inductive Shows (vm : Debuggee) (frame : FrameInfo) : Prop
  | stack (depth : Nat) (h : vm.frameInfo? depth = some frame)
  | halt (h : HaltEvent.paused frame ∈ vm.halts)

theorem programId_of_frameInfo? {depth : Nat} (h : vm.frameInfo? depth = some frame) :
    frame.program = vm.programId := by
  obtain ⟨inner, -, rfl⟩ := Option.map_eq_some_iff.mp h
  rfl

/-! ## What keeps the numbers -/

/-- The same program is loaded, and the halts that were heard of in between are halts of it. -/
structure Retains (vm vm' : Debuggee) : Prop where
  nextId : vm'.nextId = vm.nextId
  programId : vm'.programId = vm.programId
  loaded : vm'.program.isSome = vm.program.isSome
  halts : ∀ frame, .paused frame ∈ vm'.halts →
    .paused frame ∈ vm.halts ∨ vm.program.isSome = true ∧ frame.program = vm.programId

namespace Retains

theorem refl (vm : Debuggee) : vm.Retains vm :=
  ⟨rfl, rfl, rfl, fun _ => .inl⟩

theorem trans (h : vm.Retains vm₁) (h' : vm₁.Retains vm') : vm.Retains vm' where
  nextId := h'.nextId.trans h.nextId
  programId := h'.programId.trans h.programId
  loaded := h'.loaded.trans h.loaded
  halts frame hframe := by
    rcases h'.halts frame hframe with hearlier | ⟨hloaded, hprogram⟩
    · exact h.halts frame hearlier
    · exact .inr ⟨h.loaded.symm.trans hloaded, hprogram.trans h.programId⟩

end Retains

theorem nextId_settle (vm : Debuggee) (t : Transition) : (vm.settle t).2.nextId = vm.nextId := by
  have hfinish (value : Int32) (stack : Operands) :
      (vm.finish value stack).2.nextId = vm.nextId := by
    rw [finish, deliver_eq]
  have hhalt (m : Machine) : (vm.halt m).2.nextId = vm.nextId := by
    rw [halt]
    split
    · exact hfinish _ _
    · rw [deliver_eq]
  cases t with
  | moved m => exact hhalt m
  | trapped m => exact hhalt m
  | finished value stack => exact hfinish value stack
  | faulted place fault stack =>
    rw [settle, fail, deliver_eq]
  | idle stack => exact hfinish _ stack

/-- A run request loads nothing, and halts in the loaded program only. -/
theorem retains_run {fuel : Nat} {answer : Except RunError Stop}
    (h : vm.run fuel = some (answer, vm')) : vm.Retains vm' := by
  have hsame := (run_rest h).1
  cases hp : vm.program with
  | none =>
    rw [run] at h
    simp only [hp] at h
    cases h
    rw [deliver]
    split
    · refine ⟨rfl, rfl, by rw [hp], fun frame hframe => ?_⟩
      rcases Array.mem_push.mp hframe with hearlier | hnow
      · exact .inl hearlier
      · cases hnow
    · exact ⟨rfl, rfl, by rw [hp], fun _ => .inl⟩
  | some program =>
    obtain ⟨event, hdescribes, hheard⟩ := heard_run h
    rw [run_eq hp] at h
    obtain ⟨t, -, hserved⟩ := Option.map_eq_some_iff.mp h
    refine ⟨?_, hsame.programId, by rw [hsame.program], fun frame hframe => ?_⟩
    · have hnext := nextId_settle { vm with state := .running } t
      rwa [show settle _ t = (answer, vm') from hserved] at hnext
    · rw [hheard.halts] at hframe
      split at hframe
      · rcases Array.mem_push.mp hframe with hearlier | rfl
        · exact .inl hearlier
        · cases hdescribes with
          | paused _ hshown =>
            exact .inr ⟨by rw [hp]; rfl, (programId_of_frameInfo? hshown).trans hsame.programId⟩
      · exact .inl hframe

theorem Touches.retains (h : vm.Touches vm') : vm.Retains vm' := by
  cases h with
  | patch place =>
    rw [patch_eq]
    exact ⟨rfl, rfl, Option.isSome_map, fun _ => .inl⟩
  | restore place =>
    rw [restore_eq]
    exact ⟨rfl, rfl, Option.isSome_map, fun _ => .inl⟩
  | setStepping on => exact ⟨rfl, rfl, rfl, fun _ => .inl⟩

theorem Issues.retains (h : vm.Issues running) : vm.Retains running := by
  cases h <;> exact ⟨rfl, rfl, rfl, fun _ => .inl⟩

theorem Serves.retains {runs : List ServedRun} (h : vm.Serves runs vm') : vm.Retains vm' := by
  induction h with
  | refl => exact .refl vm
  | touch _ htouch ih => exact ih.trans htouch.retains
  | run _ r hissued ih => exact (ih.trans hissued.retains).trans (retains_run r.served)

theorem retains_setHandler (vm : Debuggee) : vm.Retains vm.setHandler.2 := by
  rw [setHandler]
  split <;> exact ⟨rfl, rfl, rfl, fun _ => .inl⟩

theorem retains_perform {fuel : Nat} {operation : VmOperation} {reply : Reply}
    (hloads : (Operation.vm operation).loads = false)
    (h : vm.perform fuel operation = some (reply, vm')) : vm.Retains vm' := by
  cases operation with
  | load program => cases hloads
  | call name args =>
    obtain ⟨⟨answer, vm₁⟩, hcall, heq⟩ := Option.map_eq_some_iff.mp h
    cases heq
    obtain ⟨runs, hserves⟩ := serves_call hcall
    exact hserves.retains
  | resume =>
    obtain ⟨⟨answer, vm₁⟩, hresume, heq⟩ := Option.map_eq_some_iff.mp h
    cases heq
    obtain ⟨runs, hserves⟩ := serves_resume hresume
    exact hserves.retains
  | setStepping on =>
    cases h
    exact ⟨rfl, rfl, rfl, fun _ => .inl⟩
  | setHandler =>
    cases h
    exact vm.retains_setHandler
  | clearHandler =>
    cases h
    exact ⟨rfl, rfl, rfl, fun _ => .inl⟩

/-! ## Numbered programs -/

/-- A debuggee after so many loads: the next program gets that number, the loaded one has the number
before it, and the halts of all programs have lower numbers. -/
structure Numbered (loads : Nat) (vm : Debuggee) : Prop where
  nextId : vm.nextId.number.toNat = loads
  programId : 0 < loads → vm.programId.number.toNat + 1 = loads
  loaded : vm.program.isSome = true → 0 < loads
  halts : ∀ frame, .paused frame ∈ vm.halts → frame.program.number.toNat < loads

namespace Numbered

theorem retains (h : vm.Numbered loads) (hretains : vm.Retains vm') : vm'.Numbered loads where
  nextId := hretains.nextId ▸ h.nextId
  programId := hretains.programId ▸ h.programId
  loaded := hretains.loaded ▸ h.loaded
  halts frame hframe := by
    rcases hretains.halts frame hframe with hearlier | ⟨hloaded, hprogram⟩
    · exact h.halts frame hearlier
    · have hcurrent := h.programId (h.loaded hloaded)
      rw [hprogram]
      omega

/-- Loading counts one up, as long as the numbers last. -/
theorem load (h : vm.Numbered loads) (hbound : loads + 1 < UInt32.size) (program : Program) :
    (vm.load program).2.Numbered (loads + 1) where
  nextId := by
    change (vm.nextId.number + 1).toNat = loads + 1
    rw [UInt32.toNat_add, h.nextId]
    exact Nat.mod_eq_of_lt hbound
  programId _ := congrArg (· + 1) h.nextId
  loaded _ := Nat.succ_pos loads
  halts frame hframe := Nat.lt_succ_of_lt (h.halts frame hframe)

/-- All frames that a debuggee shows have the numbers of programs that were loaded. -/
theorem shown_lt (h : vm.Numbered loads) (hvm : vm.Consistent) (hshows : vm.Shows frame) :
    frame.program.number.toNat < loads := by
  cases hshows with
  | halt hheard => exact h.halts frame hheard
  | stack depth hframe =>
    obtain ⟨inner, hinner, -⟩ := Option.map_eq_some_iff.mp hframe
    have hframes : vm.machine.frames ≠ [] := by
      intro hnil
      simp [hnil] at hinner
    obtain ⟨program, hprogram, -⟩ := hvm.nested hframes
    have hcurrent := h.programId (h.loaded (by rw [hprogram]; rfl))
    rw [programId_of_frameInfo? hframe]
    omega

end Numbered

end Debuggee

namespace Debugger

theorem retains_load (d : Debugger) (program : Program) :
    (d.vm.load program).2.Retains (d.load program).2.vm := by
  let relocated := d.lineBreakpoints.keys.foldl relocate { d with vm := (d.vm.load program).2 }
  have hvm : relocated.vm = (d.vm.load program).2 := vm_foldl_relocate _ _
  rw [← hvm]
  exact relocated.touched_rearmAll.vm.retains

/-- Through a frame of another program than the loaded one nothing is changed and nothing is found. -/
theorem ignored_of_programId_ne {d : Debugger} {frame : FrameInfo}
    (h : frame.program ≠ d.vm.programId) :
    d.restoreFrame frame = (false, d) ∧ d.rearm frame = d ∧ d.routine? frame = none ∧
      d.span? frame = none ∧ d.sourceLine? frame = none := by
  have hcurrent : d.isCurrent frame = false := beq_false_of_ne h
  have hroutine : d.routine? frame = none := by
    rw [routine?, hcurrent]
    rfl
  refine ⟨?_, ?_, hroutine, ?_, ?_⟩
  · rw [restoreFrame, hcurrent]
    rfl
  · rw [rearm, hcurrent]
    rfl
  · rw [span?, hroutine]
    rfl
  · rw [sourceLine?, hroutine]
    rfl

end Debugger

/-- How many programs an operation loads that was answered so. An operation that a host does not have
loads none. -/
def Operation.loadCount (operation : Operation) (reply : Reply) : Nat :=
  if operation.loads = true ∧ reply ≠ .unavailable then 1 else 0

namespace Host

/-- A host comes to another one by operations that load so many programs. -/
inductive Reaches (start : Host) : Nat → Host → Prop
  | refl : Reaches start 0 start
  | perform {loads fuel : Nat} {host host' : Host} {operation : Operation} {reply : Reply}
      (before : Reaches start loads host)
      (h : host.perform fuel operation = some (reply, host')) :
      Reaches start (loads + operation.loadCount reply) host'

variable {start host host' : Host} {fuel loads before since : Nat} {operation : Operation}
  {reply : Reply} {frame : FrameInfo}

/-- An operation that is served loads one program into the debuggee, or keeps the loaded one. -/
theorem loaded_or_retains (h : host.perform fuel operation = some (reply, host')) :
    (operation.loadCount reply = 1 ∧
        ∃ program, (host.vm.load program).2.Retains host'.vm) ∨
      operation.loadCount reply = 0 ∧ host.vm.Retains host'.vm := by
  cases hloads : operation.loads with
  | false =>
    refine .inr ⟨by simp [Operation.loadCount, hloads], ?_⟩
    cases performed_of_perform h with
    | vm hperform =>
      rw [vm_withVm]
      exact Debuggee.retains_perform hloads hperform
    | debugger hperform =>
      obtain ⟨runs, hserves⟩ := Debugger.serves_perform hloads hperform
      exact hserves.retains
    | within hperform =>
      obtain ⟨runs, hserves⟩ := Debugger.serves_perform hloads hperform
      exact hserves.retains
    | stepper hperform =>
      obtain ⟨runs, hserves⟩ := Stepper.serves_perform hloads hperform
      exact hserves.retains
    | wrap =>
      rw [vm_wrap]
      exact .refl host.vm
    | unwrap d => exact .refl d.vm
    | unavailable => exact .refl host.vm
  | true =>
    cases performed_of_perform h with
    | vm hperform =>
      rename_i operation vm
      cases operation <;> cases hloads
      cases hperform
      rw [vm_withVm]
      exact .inl ⟨rfl, _, .refl _⟩
    | debugger hperform =>
      rename_i operation
      cases operation <;> cases hloads
      cases hperform
      exact .inl ⟨rfl, _, Debugger.retains_load _ _⟩
    | within hperform =>
      rename_i operation
      cases operation <;> cases hloads
      cases hperform
      exact .inl ⟨rfl, _, Debugger.retains_load _ _⟩
    | stepper hperform =>
      rename_i operation
      cases operation <;> cases hloads
      cases hperform
      rename_i s program
      refine .inl ⟨rfl, program, ?_⟩
      have hvm : (s.load program).vm = (s.debugger.load program).2.vm := by
        rw [Stepper.load, Stepper.vm_setPaused]
        rfl
      have hretains := s.debugger.retains_load program
      rwa [← hvm] at hretains
    | wrap => cases hloads
    | unwrap d => cases hloads
    | unavailable => exact .inr ⟨by simp [Operation.loadCount], .refl host.vm⟩

/-- The step lemma: each operation counts the programs that it loads. -/
theorem numbered_perform (hvm : host.vm.Numbered loads)
    (hbound : loads + operation.loadCount reply < UInt32.size)
    (h : host.perform fuel operation = some (reply, host')) :
    host'.vm.Numbered (loads + operation.loadCount reply) := by
  obtain ⟨hcount, program, hretains⟩ | ⟨hcount, hretains⟩ := loaded_or_retains h
  · rw [hcount] at hbound ⊢
    exact (hvm.load hbound program).retains hretains
  · rw [hcount]
    exact hvm.retains hretains

namespace Reaches

theorem leads (h : start.Reaches loads host) : start.vm.Leads host.vm := by
  induction h with
  | refl => exact .refl start.vm
  | perform _ hperform ih => exact Relation.ReflTransGen.trans ih (leads_perform hperform)

/-- The run lemma: a session counts the programs that it loads. -/
theorem numbered (h : start.Reaches since host) (hstart : start.vm.Numbered before)
    (hbound : before + since < UInt32.size) : host.vm.Numbered (before + since) := by
  induction h with
  | refl => exact hstart
  | perform _ hperform ih =>
    rw [← Nat.add_assoc] at hbound ⊢
    exact numbered_perform (ih (Nat.lt_of_le_of_lt (Nat.le_add_right _ _) hbound)) hbound hperform

/-- In every session over a new debuggee that loads fewer programs than there are numbers, on any
level and of any programs: a frame that was shown before some program was loaded is ignored from then
on. Restoring or rearming it changes nothing, and it has no routine, no span and no source line. -/
theorem stale_frame_ignored {d : Debugger} (hnew : start.vm = {})
    (hbefore : start.Reaches before host) (hshown : host.vm.Shows frame)
    (hsince : host.Reaches since host') (hloaded : 0 < since)
    (hbound : before + since < UInt32.size) (hd : host'.debugger? = some d) :
    d.restoreFrame frame = (false, d) ∧ d.rearm frame = d ∧ d.routine? frame = none ∧
      d.span? frame = none ∧ d.sourceLine? frame = none := by
  have hstart : start.vm.Numbered 0 := by
    rw [hnew]
    exact ⟨rfl, nofun, nofun, nofun⟩
  have hconsistent : start.vm.Consistent := by
    rw [hnew]
    exact Debuggee.consistent_new
  have hhost : host.vm.Numbered before := by
    have hcounted := hbefore.numbered hstart (by omega)
    rwa [Nat.zero_add] at hcounted
  have hframe := hhost.shown_lt (hconsistent.of_leads hbefore.leads) hshown
  have hnow := (hsince.numbered hhost hbound).programId (by omega)
  have hvm := Host.vm_of_debugger? hd
  have hother : frame.program ≠ d.vm.programId := by
    intro heq
    rw [heq, hvm] at hframe
    omega
  exact Debugger.ignored_of_programId_ne hother

end Reaches

end Host

/-- A debugger in which a call of a sum is halted at a breakpoint. -/
def Debugger.inSum : Debugger :=
  match ((({} : Debugger).load .sum).2.set ⟨0, 1⟩).call 9 "sum" #[] with
  | some (_, d) => d
  | none => {}

/-- The sum is loaded a second time. The breakpoint is patched again at the place where the first call
was halted, and restoring the frame of that call leaves it there. -/
theorem Host.Reaches.stale_frame_ignored_sum :
    Debugger.inSum.vm.frameInfo? 0 = some ⟨⟨0⟩, 0, 1⟩ ∧
      (Debugger.inSum.load .sum).2.vm.isPatched ⟨0, 1⟩ = true ∧
      (Debugger.inSum.load .sum).2.restoreFrame ⟨⟨0⟩, 0, 1⟩ =
        (false, (Debugger.inSum.load .sum).2) := by
  have hloaded : Reaches (.debugger {}) 1 (.debugger (({} : Debugger).load .sum).2) :=
    Reaches.refl.perform
      (show Host.perform 0 _ (.debugger (.load .sum)) = some (.loaded ⟨0⟩, _) from rfl)
  have hset := hloaded.perform
    (show Host.perform 0 _ (.debugger (.set ⟨0, 1⟩)) = some (.done, _) from rfl)
  have hcalled : Reaches (.debugger {}) 1 (.debugger .inSum) :=
    hset.perform
      (show Host.perform 9 _ (.debugger (.call "sum" #[])) = some (.stopped .paused, _) from rfl)
  have hreloaded : Reaches (.debugger .inSum) 1 (.debugger (Debugger.inSum.load .sum).2) :=
    Reaches.refl.perform
      (show Host.perform 0 _ (.debugger (.load .sum)) = some (.loaded ⟨1⟩, _) from rfl)
  have hframe : Debugger.inSum.vm.frameInfo? 0 = some ⟨⟨0⟩, 0, 1⟩ := by decide +kernel
  have hstale := stale_frame_ignored rfl hcalled (.stack 0 hframe) hreloaded Nat.one_pos
    (by decide) rfl
  exact ⟨hframe, by decide +kernel, hstale.1⟩

end BytecodeDebugger
