import BytecodeDebugger.Proofs.ImageRoundTrip
import BytecodeDebugger.Proofs.IssuedRuns
import BytecodeDebugger.Proofs.KeptBreakpoints

/-!
# A loaded program is only ever patched

Until another program is loaded, whatever is asked of a host of any level, and however it is
answered, the loaded program is the one that was loaded with some of its instructions displaced by
traps: putting all of them back gives that program, and its image is that of that program.

## Implementation notes

A run request does not write to the program, so what remains are the patches that are put in and
taken out on the way, and those change nothing of the program as it was written.
-/

namespace BytecodeDebugger

namespace Program

/-- The instruction that the machine executes at a location. -/
def liveAt? (p : Program) (place : Location) : Option Instruction :=
  (p.routine? place.function).bind fun r => r.code.get? place.address

/-- A trap stands where a location is patched, and elsewhere what was written there. -/
theorem liveAt?_eq (p : Program) (place : Location) :
    p.liveAt? place =
      if p.isPatched place then some Instruction.breakpoint else p.instructionAt? place := by
  rw [liveAt?, isPatched, instructionAt?]
  cases p.routine? place.function with
  | none => rfl
  | some r => exact r.code.get?_eq place.address

/-- A program that was written as another one executes the instructions of that one, except where it
is patched. -/
theorem liveAt?_of_unpatched_eq {p program : Program} (hplain : program.IsPlain)
    (h : p.unpatched = program) (place : Location) :
    p.liveAt? place =
      if p.isPatched place then some Instruction.breakpoint else program.liveAt? place := by
  have hwritten : program.liveAt? place = p.instructionAt? place := by
    rw [liveAt?_eq, hplain place, ← h, instructionAt?_unpatched]
    rfl
  rw [liveAt?_eq p, hwritten]

end Program

namespace Wire

namespace Format

theorem write_routine_unpatched (r : Routine) : routine.write r.unpatched = routine.write r := by
  have hcode : code.write r.code.restoreAll = code.write r.code :=
    congrArg (fun instructions : Array Instruction => (array instruction).write instructions.toList)
      (Code.instructions_ofInstructions r.code.instructions)
  exact congrArg (· ++ _) hcode

theorem write_array_routine_unpatched (routines : List Routine) :
    (array routine).write (routines.map Routine.unpatched) = (array routine).write routines := by
  simp only [array, list, List.length_map, List.flatMap_map, write_routine_unpatched]

end Format

/-- Patches are not part of an image. -/
theorem encode_unpatched (p : Program) : encode p.unpatched = encode p := by
  have hroutines : (Format.array Format.routine).write p.unpatched.routines.toList =
      (Format.array Format.routine).write p.routines.toList := by
    rw [Program.unpatched, Array.toList_map]
    exact Format.write_array_routine_unpatched p.routines.toList
  exact congrArg (fun bytes => Format.version.write Version.current ++ (bytes ++ _)) hroutines

end Wire

/-- The program that an operation loads, if it loads one. -/
def Operation.program? : Operation → Option Program
  | .vm (.load program) | .debugger (.load program) | .stepper (.load program) => some program
  | _ => none

/-! ## One operation -/

/-- Without loading a program, a debuggee keeps its program as it was written. -/
theorem Debuggee.plain_perform {vm vm' : Debuggee} {fuel : Nat} {operation : VmOperation}
    {reply : Reply} (hloads : (Operation.vm operation).loads = false)
    (h : vm.perform fuel operation = some (reply, vm')) : vm'.plain? = vm.plain? := by
  cases operation with
  | load program => cases hloads
  | call name args =>
    obtain ⟨⟨answer, vm₁⟩, hcall, heq⟩ := Option.map_eq_some_iff.mp h
    cases heq
    exact (sameProgram_call hcall).plain
  | resume =>
    obtain ⟨⟨answer, vm₁⟩, hresume, heq⟩ := Option.map_eq_some_iff.mp h
    cases heq
    exact (resume_rest hresume).1.plain
  | setStepping on => exact (quiet_perform rfl h).1.plain
  | setHandler => exact (quiet_perform rfl h).1.plain
  | clearHandler => exact (quiet_perform rfl h).1.plain

namespace Host

variable {host host' start : Host} {fuel : Nat} {operation : Operation} {reply : Reply}
  {program : Program}

/-- Without loading a program, a host of any level keeps it as it was written. -/
theorem plain_perform (hloads : operation.loads = false)
    (h : host.perform fuel operation = some (reply, host')) : host'.vm.plain? = host.vm.plain? := by
  cases performed_of_perform h with
  | vm hperform =>
    rw [vm_withVm]
    exact Debuggee.plain_perform hloads hperform
  | debugger hperform =>
    obtain ⟨runs, hserves⟩ := Debugger.serves_perform hloads hperform
    exact hserves.plain
  | within hperform =>
    obtain ⟨runs, hserves⟩ := Debugger.serves_perform hloads hperform
    exact hserves.plain
  | stepper hperform =>
    obtain ⟨runs, hserves⟩ := Stepper.serves_perform hloads hperform
    exact hserves.plain
  | wrap => rw [vm_wrap]
  | unwrap d => rfl
  | unavailable => rfl

/-- A program that is loaded at any level is loaded as it was written. -/
theorem plain_of_load (hloads : operation.program? = some program)
    (h : host.perform fuel operation = some (reply, host')) (havailable : reply ≠ .unavailable) :
    host'.vm.plain? = some program.unpatched := by
  cases performed_of_perform h with
  | vm hperform =>
    rename_i operation vm
    cases operation <;> cases hloads
    cases hperform
    rw [vm_withVm]
    rfl
  | @debugger d _ operation _ hperform =>
    cases operation <;> cases hloads
    cases hperform
    exact (d.sameCall_load program).plain
  | @within s _ operation _ hperform =>
    cases operation <;> cases hloads
    cases hperform
    exact (s.debugger.sameCall_load program).plain
  | @stepper s _ operation _ hperform =>
    cases operation <;> cases hloads
    cases hperform
    have hvm : (s.load program).vm = (s.debugger.load program).2.vm := Stepper.vm_setPaused _ false
    exact (congrArg Debuggee.plain? hvm).trans (s.debugger.sameCall_load program).plain
  | wrap => cases hloads
  | unwrap d => cases hloads
  | unavailable => exact absurd rfl havailable

/-! ## Sessions -/

theorem Session.plain {failed : Bool}
    (h : Session (fun operation => operation.loads = false) start failed host) :
    host.vm.plain? = start.vm.plain? := by
  induction h with
  | new => rfl
  | perform before hloads hperform ih => exact (plain_perform hloads hperform).trans ih

/-- In every session that goes on after a program without patches was loaded, at any level and into
any host, and that loads no other one: putting all displaced instructions back gives the program,
every instruction is that of the program or, at a patched location, a trap, and the image is that of
the program. -/
theorem Session.only_patched {before : Host} {failed : Bool} (hplain : program.IsPlain)
    (hloads : operation.program? = some program)
    (hload : before.perform fuel operation = some (reply, start))
    (havailable : reply ≠ .unavailable)
    (hsession : Session (fun operation => operation.loads = false) start failed host) :
    ∃ p, host.vm.program = some p ∧ p.unpatched = program ∧
      (∀ place, p.liveAt? place =
        if p.isPatched place then some Instruction.breakpoint else program.liveAt? place) ∧
      Wire.encode p = Wire.encode program := by
  have hloaded := hsession.plain.trans (plain_of_load hloads hload havailable)
  rw [Program.unpatched_eq_self_iff.mpr hplain] at hloaded
  obtain ⟨p, hp, hwritten⟩ := Option.map_eq_some_iff.mp hloaded
  refine ⟨p, hp, hwritten, Program.liveAt?_of_unpatched_eq hplain hwritten, ?_⟩
  rw [← Wire.encode_unpatched, hwritten]

/-- On the second breakpoint of a sum, the first one is patched into the program, which is still
written as the sum and has its image. -/
theorem Session.only_patched_sum :
    Debugger.onSecond.vm.isPatched ⟨0, 1⟩ = true ∧
      ∃ p, Debugger.onSecond.vm.program = some p ∧ p.unpatched = .sum ∧
        p.liveAt? ⟨0, 1⟩ = some .breakpoint ∧ p.liveAt? ⟨0, 2⟩ = Program.sum.liveAt? ⟨0, 2⟩ ∧
        Wire.encode p = Wire.encode .sum := by
  have hnew : Session (fun operation => operation.loads = false)
      (.debugger (({} : Debugger).load .sum).2) false (.debugger (({} : Debugger).load .sum).2) :=
    .new
  have hfirst := hnew.perform rfl
    (show Host.perform 0 _ (.debugger (.set ⟨0, 1⟩)) = some _ from rfl)
  have hsecond := hfirst.perform rfl
    (show Host.perform 0 _ (.debugger (.set ⟨0, 2⟩)) = some _ from rfl)
  have hcalled := hsecond.perform rfl
    (show Host.perform 9 _ (.debugger (.call "sum" #[])) = some (.stopped .paused, _) from rfl)
  have hhalted := hcalled.perform rfl
    (show Host.perform 9 _ (.debugger .proceed) =
      some (.stepped (.paused ⟨⟨0⟩, 0, 2⟩ true), .debugger .onSecond) from rfl)
  obtain ⟨p, hp, hwritten, hlive, himage⟩ := Session.only_patched
    (show Program.sum.IsPlain by decide) rfl
    (show (Host.debugger {}).perform 0 (.debugger (.load .sum)) = some _ from rfl) nofun hhalted
  have hp : Debugger.onSecond.vm.program = some p := hp
  have hpatched (place : Location) : p.isPatched place = Debugger.onSecond.vm.isPatched place := by
    rw [Debuggee.isPatched, hp, Option.any_some]
  have hfirst : p.isPatched ⟨0, 1⟩ = true := (hpatched _).trans (by decide +kernel)
  have hsecond : p.isPatched ⟨0, 2⟩ = false := (hpatched _).trans (by decide +kernel)
  refine ⟨(hpatched _).symm.trans hfirst, p, hp, hwritten, ?_, ?_, himage⟩
  · rw [hlive, hfirst]
    rfl
  · rw [hlive, hsecond]
    rfl

end Host

end BytecodeDebugger
