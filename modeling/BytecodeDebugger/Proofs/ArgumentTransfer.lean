import BytecodeDebugger.Proofs.CallStack
import BytecodeDebugger.Proofs.CanonicalImages
import BytecodeDebugger.Proofs.NestedCalls

/-!
# Calls whose sum is not a word

As long as the base of the calling frame and the number of arguments have a word as their sum, a call
fails exactly if too few operands lie above the base, and else moves the topmost ones. Where the sum
is not a word the process is stopped, although too few operands lie above the base, and an image can
bring that about.

## Implementation notes

A number of arguments that is read from an image is a word, and in every run request the operands of
the innermost frame start within the stack. So a sum that is not a word exceeds any stack that fits
into the memory of a process.
-/

namespace BytecodeDebugger

open WordArithmetic (limit)

namespace Machine

theorem routine?_of_called {program : Program} {frame : Frame} {function : Nat} {r : Routine}
    (h : called? program frame = some (function, r)) : program.routine? function = some r := by
  obtain ⟨i, -, -, hcallee⟩ := cases_of_called h
  rw [callee?] at hcallee
  split at hcallee
  · obtain ⟨routine, hroutine, heq⟩ := Option.map_eq_some_iff.mp hcallee
    cases heq
    exact hroutine
  · cases hcallee

end Machine

/-- The number of arguments of a routine of an image is a word, whatever is patched. -/
theorem Wire.argCount_lt_of_decode {bytes : List UInt8} {program : Program} {index : Nat}
    {r : Routine} (himage : decode bytes = .ok program.unpatched)
    (hr : program.routine? index = some r) : r.argCount < limit := by
  rw [decode] at himage
  split at himage
  · cases himage
  · rename_i found image rest hread
    split at himage
    · cases himage
      obtain ⟨⟨-, hfits, -⟩, -⟩ := (Format.tightens_version.seq Format.tightens_program) _ _ _ hread
      have hunpatched : program.unpatched.routine? index = some r.unpatched := by
        rw [Program.routine?_unpatched, hr]
        rfl
      exact (hfits.routines.2 _ (Array.mem_of_getElem? hunpatched)).argCount
    · cases himage

namespace Debuggee

/-- In every run request, the operands of the innermost frame start within the stack. -/
theorem base_le_size_of_issued {vm running : Debuggee} {program : Program} {k : Nat} {frame : Frame}
    {callers : List Frame} {stack : Operands} (hleads : Leads {} vm) (hissues : vm.Issues running)
    (hprogram : running.program = some program)
    (hafter : running.machine.after program k = some ⟨frame :: callers, stack⟩) :
    frame.stackBase ≤ stack.size := by
  obtain ⟨program', hprogram', -, hnested⟩ := hissues.nested (consistent_new.of_leads hleads)
  cases hprogram.symm.trans hprogram'
  exact (hnested.after hafter).innermost frame rfl

/-- Whenever a debuggee comes to execute a call in a program that was read from an image, whatever
was loaded, called and patched before, a process serves the call as long as the base of the calling
frame and the number of arguments have a word as their sum: the call fails for want of operands
exactly if fewer than the arguments lie above the base, and else the topmost operands become the
memory of the new frame. Where the sum is not a word, the process is stopped. -/
theorem transfer_in_words (arithmetic : WordArithmetic) {vm running : Debuggee}
    {bytes : List UInt8} {program : Program} {k function : Nat} {frame : Frame}
    {callers : List Frame} {stack : Operands} {r : Routine}
    (hleads : Leads {} vm) (hissues : vm.Issues running)
    (hprogram : running.program = some program)
    (himage : Wire.decode bytes = .ok program.unpatched)
    (hafter : running.machine.after program k = some ⟨frame :: callers, stack⟩)
    (hcalled : Machine.called? program frame = some (function, r)) (hmemory : stack.InMemory) :
    let answer := Machine.stepIn arithmetic program ⟨frame :: callers, stack⟩
    (frame.stackBase + r.argCount < limit →
      (answer = some (.faulted ⟨frame.function, frame.pc⟩ .stackUnderflow stack) ↔
        stack.size - frame.stackBase < r.argCount) ∧
      (r.argCount ≤ stack.size - frame.stackBase → ∃ args rest,
        stack.values = rest ++ args ∧ args.size = r.argCount ∧ frame.stackBase ≤ rest.size ∧
        answer = some (.moved
          ⟨{ function, memory := ⟨args⟩, stackBase := rest.size } :: frame :: callers, ⟨rest⟩⟩))) ∧
    (limit ≤ frame.stackBase + r.argCount →
      stack.size - frame.stackBase < r.argCount ∧ answer = none) := by
  intro answer
  have hbase := base_le_size_of_issued hleads hissues hprogram hafter
  have hargs := Wire.argCount_lt_of_decode himage (Machine.routine?_of_called hcalled)
  have hsize : 2 * stack.size < limit := by
    unfold Operands.InMemory limit at *
    omega
  have hanswer : answer = _ := Machine.stepIn_of_called arithmetic stack hcalled
  constructor
  · intro hsum
    by_cases hfew : stack.size - frame.stackBase < r.argCount
    · rw [Operands.split_of_few hsum (fun _ => hmemory.size_lt) hbase hfew] at hanswer
      exact ⟨⟨fun _ => hfew, fun _ => hanswer⟩,
        fun henough => absurd hfew (Nat.not_lt.mpr henough)⟩
    · obtain ⟨args, rest, hvalues, hcount, hrest, hsplit⟩ :=
        Operands.split_of_enough hsum (fun _ => hmemory.size_lt) hbase (Nat.not_lt.mp hfew)
      rw [hsplit] at hanswer
      refine ⟨⟨fun hfaulted => ?_, fun h => absurd h hfew⟩,
        fun _ => ⟨args, rest, hvalues, hcount, hrest, hanswer⟩⟩
      cases hanswer.symm.trans hfaulted
  · intro hsum
    rw [Operands.split_of_le arithmetic hsum hbase hargs hmemory] at hanswer
    exact ⟨by omega, hanswer⟩

/-- The call of the successor program takes the upper one of two operands, and the second call of
the greedy program stops the process, also if it lets sums wrap around. -/
theorem transfer_in_words_called :
    (∃ args rest, #[7, 3] = rest ++ args ∧ args.size = 1 ∧
      Machine.stepIn .checked .successor ⟨[⟨0, 2, ⟨#[]⟩, 0⟩], ⟨#[7, 3]⟩⟩ =
        some (.moved ⟨[⟨1, 0, ⟨args⟩, rest.size⟩, ⟨0, 2, ⟨#[]⟩, 0⟩], ⟨rest⟩⟩)) ∧
    Machine.stepIn .wrapping .greedy ⟨[⟨1, 0, ⟨#[]⟩, 1⟩, ⟨0, 1, ⟨#[]⟩, 0⟩], ⟨#[5]⟩⟩ = none := by
  have hloaded (program : Program) : Leads {} (load {} program).2 :=
    (Leads.refl {}).tail (.load {} program)
  constructor
  · have hserved := transfer_in_words .checked (hloaded .successor)
      (.call #[] rfl rfl (show Program.successor.lookup? "main" = some 0 by decide +kernel) rfl) rfl
      (show Wire.decode (Wire.encode .successor) = .ok Program.successor.unpatched by
        decide +kernel)
      (show (Machine.start 0 #[]).after .successor 2 =
        some ⟨[⟨0, 2, ⟨#[]⟩, 0⟩], ⟨#[7, 3]⟩⟩ by decide +kernel)
      (show Machine.called? .successor ⟨0, 2, ⟨#[]⟩, 0⟩ = some (1, Program.successor.routines[1])
        by decide +kernel)
      (show 4 * 2 < _ by decide)
    obtain ⟨args, rest, hvalues, hsize, -, hmoved⟩ := (hserved.1 (by decide)).2 (by decide)
    exact ⟨args, rest, hvalues, hsize, hmoved⟩
  · have hserved := transfer_in_words .wrapping (hloaded .greedy)
      (.call #[] rfl rfl (show Program.greedy.lookup? "main" = some 0 by decide +kernel) rfl) rfl
      (show Wire.decode (Wire.encode .greedy) = .ok Program.greedy.unpatched by decide +kernel)
      (show (Machine.start 0 #[]).after .greedy 2 =
        some ⟨[⟨1, 0, ⟨#[]⟩, 1⟩, ⟨0, 1, ⟨#[]⟩, 0⟩], ⟨#[5]⟩⟩ by decide +kernel)
      (show Machine.called? .greedy ⟨1, 0, ⟨#[]⟩, 1⟩ = some (2, Program.greedy.routines[2])
        by decide +kernel)
      (show 4 * 1 < _ by decide)
    exact (hserved.2 (by decide)).2

/-- The greedy program is read from its image, and its exported routine comes to a call for which the
base and the number of arguments have no word as their sum. Too few operands lie above the base, and
yet the call is not answered by a fault: every process is stopped. -/
theorem transfer_stops_greedy :
    Wire.decode (Wire.encode .greedy) = .ok Program.greedy ∧
      Program.greedy.lookup? "main" = some 0 ∧
      (Machine.start 0 #[]).after .greedy 2 =
        some ⟨[⟨1, 0, ⟨#[]⟩, 1⟩, ⟨0, 1, ⟨#[]⟩, 0⟩], ⟨#[5]⟩⟩ ∧
      Machine.called? .greedy ⟨1, 0, ⟨#[]⟩, 1⟩ = some (2, Program.greedy.routines[2]) ∧
      1 - 1 < Program.greedy.routines[2].argCount ∧
      ¬1 + Program.greedy.routines[2].argCount < limit ∧
      Machine.stepIn .checked .greedy ⟨[⟨1, 0, ⟨#[]⟩, 1⟩, ⟨0, 1, ⟨#[]⟩, 0⟩], ⟨#[5]⟩⟩ = none ∧
      Machine.stepIn .wrapping .greedy ⟨[⟨1, 0, ⟨#[]⟩, 1⟩, ⟨0, 1, ⟨#[]⟩, 0⟩], ⟨#[5]⟩⟩ = none := by
  refine ⟨?_, ?_, ?_, ?_, ?_, ?_, ?_, ?_⟩ <;> decide +kernel

end Debuggee

end BytecodeDebugger
