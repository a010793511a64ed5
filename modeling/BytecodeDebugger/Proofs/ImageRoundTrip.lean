import BytecodeDebugger.Proofs.Formats
import BytecodeDebugger.Proofs.Patching
import BytecodeDebugger.Wire.Image

/-!
# Images are read back

The image of a program is read back as the program without its patches, whatever bytes follow it,
if its version has the format that is read here. An image of another format is rejected with the
version that it was found to have. So a program comes back as it was exactly if nothing in it is
patched.

## Implementation notes

The sizes, addresses and counts of an image are numbers of sixty-four bits. `Program.Fits` says so
of a program, field by field, and is all that is asked of it.
-/

namespace BytecodeDebugger

namespace Wire

/-- The first number that is no size, address or count. -/
def countLimit : Nat := 18446744073709551616

end Wire

open Wire (countLimit)

/-- The numbers of a routine can be written as counts. -/
structure Routine.Fits (r : Routine) : Prop where
  code : r.code.size < countLimit
  spans : r.spans.entries.length < countLimit ∧ ∀ entry ∈ r.spans.entries,
    entry.1 < countLimit ∧ entry.2.file.utf8ByteSize < countLimit
  argCount : r.argCount < countLimit

/-- The numbers of a program can be written as counts. -/
structure Program.Fits (p : Program) : Prop where
  routines : p.routines.size < countLimit ∧ ∀ r ∈ p.routines, r.Fits
  undefinedNames : p.undefinedNames.length < countLimit ∧ ∀ name ∈ p.undefinedNames,
    name.utf8ByteSize < countLimit
  exports : p.exports.entries.length < countLimit ∧ ∀ entry ∈ p.exports.entries,
    entry.1.utf8ByteSize < countLimit ∧ entry.2 < countLimit
  enumValues : p.enumValues.entries.length < countLimit ∧ ∀ entry ∈ p.enumValues.entries,
    entry.1.utf8ByteSize < countLimit
  strings : p.strings.length < countLimit ∧ ∀ text ∈ p.strings, text.utf8ByteSize < countLimit

instance (r : Routine) : Decidable r.Fits :=
  decidable_of_iff (r.code.size < countLimit ∧ (r.spans.entries.length < countLimit ∧
      ∀ entry ∈ r.spans.entries, entry.1 < countLimit ∧ entry.2.file.utf8ByteSize < countLimit) ∧
      r.argCount < countLimit)
    ⟨fun h => ⟨h.1, h.2.1, h.2.2⟩, fun h => ⟨h.code, h.spans, h.argCount⟩⟩

namespace Code

/-- Code is what it was made of exactly if nothing in it is patched. -/
theorem restoreAll_eq_self_iff {c : Code} :
    c.restoreAll = c ↔ ∀ address, c.isPatched address = false := by
  constructor
  · intro h address
    rw [← h]
    exact c.isPatched_restoreAll address
  · intro h
    have hfree (address : Nat) : c.displaced.get? address = none := by
      have hnone := h address
      rw [isPatched, SortedMap.contains_eq_isSome_get?] at hnone
      simpa using hnone
    apply Code.ext
    · apply Array.ext_getElem?
      intro address
      have hwritten := c.getElem?_instructions address
      rw [instructionAt?, hfree address, Option.none_or] at hwritten
      exact hwritten
    · apply SortedMap.ext
      symm
      apply List.eq_nil_iff_forall_not_mem.mpr
      rintro ⟨address, instruction⟩ hentry
      have hpatched := SortedMap.contains_eq_true_iff.mpr ⟨instruction, hentry⟩
      rw [show c.displaced.contains address = false from h address] at hpatched
      cases hpatched

end Code

namespace Program

/-- A program is the same without its patches exactly if it has none. -/
theorem unpatched_eq_self_iff {p : Program} : p.unpatched = p ↔ p.IsPlain := by
  constructor
  · intro h place
    rw [← h, isPatched, routine?_unpatched]
    cases p.routine? place.function <;> rfl
  · intro h
    have hroutines : p.unpatched.routines = p.routines := by
      apply Array.ext_getElem?
      intro index
      change p.unpatched.routine? index = p.routine? index
      rw [routine?_unpatched]
      cases hr : p.routine? index with
      | none => rfl
      | some r =>
        have hcode : r.code.restoreAll = r.code := by
          apply Code.restoreAll_eq_self_iff.mpr
          intro address
          have hfree := h ⟨index, address⟩
          rwa [isPatched, hr, Option.any_some] at hfree
        rw [Option.map_some, Routine.unpatched, hcode]
    have hrest : p.unpatched = { p with routines := p.unpatched.routines } := rfl
    rw [hrest, hroutines]

end Program

namespace Wire

namespace Format

theorem readsBack_string : string.ReadsBack (fun s => s.utf8ByteSize < countLimit) id :=
  readsBack_text readsBack_count

theorem readsBack_version : version.ReadsBack (fun _ => True) id := by
  apply (readsBack_word16.seq (readsBack_word16.seq readsBack_word16)).via
  · intro v _
    exact ⟨trivial, trivial, trivial⟩
  · intro v
    rfl

theorem readsBack_opcode : opcode.ReadsBack (fun _ => True) id := by
  apply readsBack_varint32.narrow
  · intro op _
    cases op <;> decide
  · intro op
    exact op.ofNumber?_number

theorem readsBack_instruction : instruction.ReadsBack (fun _ => True) id := by
  apply (readsBack_opcode.seq (readsBack_signed32.seq readsBack_signed32)).via
  · intro i _
    exact ⟨trivial, trivial, trivial⟩
  · intro i
    rfl

/-- Code is read back as it was written, without its patches. -/
theorem readsBack_code : code.ReadsBack (fun c => c.size < countLimit) Code.restoreAll := by
  apply (ReadsBack.list readsBack_count readsBack_instruction).via
  · intro c hc
    refine ⟨?_, fun _ _ => trivial⟩
    rw [Array.length_toList, Code.instructions, Array.size_mapIdx]
    exact hc
  · intro c
    rw [List.map_id, Array.toArray_toList]
    rfl

theorem readsBack_position : position.ReadsBack (fun _ => True) id := by
  apply (readsBack_word32.seq readsBack_word32).via
  · intro v _
    exact ⟨trivial, trivial⟩
  · intro v
    rfl

theorem readsBack_sourceSpan :
    sourceSpan.ReadsBack (fun s => s.file.utf8ByteSize < countLimit) id := by
  apply (readsBack_string.seq (readsBack_position.seq readsBack_position)).via
  · intro s hs
    exact ⟨hs, trivial, trivial⟩
  · intro s
    rfl

theorem readsBack_routine : routine.ReadsBack Routine.Fits Routine.unpatched := by
  have hspans := ReadsBack.sortedMap readsBack_count readsBack_count readsBack_sourceSpan
  apply (readsBack_code.seq (hspans.seq readsBack_count)).via
  · intro r hr
    exact ⟨hr.code, hr.spans, hr.argCount⟩
  · intro r
    rfl

/-- A program is read back without its patches. -/
theorem readsBack_program : program.ReadsBack Program.Fits Program.unpatched := by
  have hroutines := ReadsBack.list readsBack_count readsBack_routine
  have hstrings := ReadsBack.list readsBack_count readsBack_string
  have hexports := ReadsBack.sortedMap readsBack_count readsBack_string readsBack_count
  have hvalues := ReadsBack.sortedMap readsBack_count readsBack_string readsBack_signed32
  apply (hroutines.seq (hstrings.seq (hexports.seq (hvalues.seq hstrings)))).via
  · intro p hp
    refine ⟨⟨hp.routines.1, fun r hr => hp.routines.2 r (Array.mem_toList_iff.mp hr)⟩,
      hp.undefinedNames, hp.exports, ⟨hp.enumValues.1, fun entry hentry => ?_⟩, hp.strings⟩
    exact ⟨hp.enumValues.2 entry hentry, trivial⟩
  · intro p
    simp only [List.map_id, id, Program.unpatched]
    congr 1
    apply Array.toList_inj.mp
    rw [Array.toList_map]

theorem readsBack_image : image.ReadsBack (fun v => v.2.Fits) fun v => (v.1, v.2.unpatched) := by
  intro v rest hv
  exact readsBack_version.seq readsBack_program v rest ⟨trivial, hv⟩

end Format

/-- An image, whatever bytes follow it, is read back as its program without the patches if its
version has the format of this one, and is rejected with its version otherwise. Hence the image of a
program is read back as that program exactly if nothing in it is patched. -/
theorem decode_image_append (p : Program) (hp : p.Fits) (v : Version) (rest : List UInt8) :
    encode p = Format.image.write (Version.current, p) ∧
      decode (Format.image.write (v, p) ++ rest) =
        (if v.Compatible Version.current then .ok p.unpatched else .error (.versionMismatch v)) ∧
      (decode (encode p) = .ok p ↔ p.IsPlain) := by
  have hdecode (v : Version) (rest : List UInt8) :
      decode (Format.image.write (v, p) ++ rest) =
        if v.Compatible Version.current then .ok p.unpatched else .error (.versionMismatch v) := by
    rw [decode, Format.readsBack_image (v, p) rest hp]
  refine ⟨rfl, hdecode v rest, ?_⟩
  have hcurrent : decode (encode p) = .ok p.unpatched := by
    have hown := hdecode Version.current []
    rwa [List.append_nil, if_pos ⟨rfl, rfl⟩] at hown
  rw [hcurrent, Except.ok.injEq]
  exact Program.unpatched_eq_self_iff

/-- A sum with a breakpoint on its addition, the least number among its values and a text beyond
ASCII. Its image is read back without the breakpoint, also from another patch version and with bytes
behind it, and is rejected from another minor version. -/
theorem decode_image_append_sum :
    ∃ p : Program, p.Fits ∧ p.patchedLocations = [⟨0, 2⟩] ∧ p.strings = ["é"] ∧
      p.enumValues.get? "least" = some (-2147483648) ∧
      decode (Format.image.write (⟨0, 1, 7⟩, p) ++ [255]) = .ok p.unpatched ∧
      decode (Format.image.write (⟨0, 2, 0⟩, p)) = .error (.versionMismatch ⟨0, 2, 0⟩) ∧
      decode (encode p) ≠ .ok p := by
  let p : Program :=
    { (Program.sum.patch ⟨0, 2⟩).2 with
      enumValues := SortedMap.insert ∅ "least" (-2147483648)
      strings := ["é"] }
  have hfits : p.Fits := ⟨by decide, by decide, by decide, by decide, by decide⟩
  refine ⟨p, hfits, rfl, rfl, rfl, ?_, ?_, ?_⟩
  · exact (decode_image_append p hfits ⟨0, 1, 7⟩ [255]).2.1
  · have hother := (decode_image_append p hfits ⟨0, 2, 0⟩ []).2.1
    rwa [List.append_nil] at hother
  · rw [ne_eq, (decode_image_append p hfits Version.current []).2.2]
    decide

end Wire

end BytecodeDebugger
