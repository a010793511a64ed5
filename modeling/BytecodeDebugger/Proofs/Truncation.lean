import BytecodeDebugger.Proofs.ImageRoundTrip

/-!
# Truncated images are rejected as truncated

A reader that is given the bytes of a value without their end runs out of bytes: it neither finds
another value in what is left nor takes the cut for a malformed number, text or opcode. As for
reading back, the law is proved once for each combinator and for the numbers at the leaves.

## Implementation notes

A cut of the bytes of a value is given with the bytes that are missing, of which there is at least
one. In a sequence the cut falls into one of the parts. The parts before that one are whole, so it
takes the law of reading back to come to the part that is cut.
-/

namespace BytecodeDebugger.Wire

/-- A cut through a sequence falls into its first part, or leaves that part whole and falls into the
rest. -/
theorem cut_append {first rest cut missing : List UInt8} (h : first ++ rest = cut ++ missing) :
    (∃ lost, lost ≠ [] ∧ first = cut ++ lost) ∨
      ∃ left, cut = first ++ left ∧ rest = left ++ missing := by
  rcases List.append_eq_append_iff.mp h with ⟨left, hcut, hrest⟩ | ⟨lost, hfirst, hmissing⟩
  · exact .inr ⟨left, hcut, hrest⟩
  · by_cases hlost : lost = []
    · subst hlost
      refine .inr ⟨[], ?_, hmissing.symm⟩
      rw [hfirst, List.append_nil, List.append_nil]
    · exact .inl ⟨lost, hlost, hfirst⟩

/-- A cut through a single byte leaves nothing. -/
theorem eq_nil_of_cut_singleton {byte : UInt8} {cut missing : List UInt8} (hmissing : missing ≠ [])
    (h : [byte] = cut ++ missing) : cut = [] := by
  rcases List.append_eq_singleton_iff.mp h.symm with ⟨hcut, -⟩ | ⟨-, hnone⟩
  · exact hcut
  · exact absurd hnone hmissing

/-- A number that is cut has no last byte. By induction on the number of bytes that are left: the
bytes before the last one all ask for another. -/
theorem readVarint_cut {maxLast more n : Nat} {cut missing : List UInt8} (hlast : maxLast < 128)
    (hn : n < capacity maxLast more) (hmissing : missing ≠ [])
    (h : varintBytes n = cut ++ missing) :
    readVarint maxLast (more + 1) cut = .error .endOfInput := by
  induction more generalizing n cut with
  | zero =>
    have hle : n ≤ maxLast := Nat.le_of_lt_succ hn
    rw [varintBytes_of_lt (by omega)] at h
    rw [eq_nil_of_cut_singleton hmissing h]
    rfl
  | succ more ih =>
    by_cases hsmall : n < 128
    · rw [varintBytes_of_lt hsmall] at h
      rw [eq_nil_of_cut_singleton hmissing h]
      rfl
    · rw [varintBytes_of_le (by omega)] at h
      cases cut with
      | nil => rfl
      | cons byte cut =>
        obtain ⟨hbyte, hrest⟩ := List.cons_eq_cons.mp h
        have hquotient : n / 128 < capacity maxLast more := by
          rw [capacity] at hn
          omega
        have hmore : ¬byte.toNat < 128 := by
          rw [← hbyte, toNat_toUInt8_of_lt (by omega)]
          omega
        rw [readVarint, if_neg hmore, ih hquotient hrest]
        rfl

namespace Format

variable {α β κ : Type} {f : Format α} {g : Format β} {fits : α → Prop} {back : α → α}

/-- The bytes of a value that fits, without their end, are rejected for want of more. -/
def RejectsCuts (f : Format α) (fits : α → Prop) : Prop :=
  ∀ value cut missing, fits value → missing ≠ [] → f.write value = cut ++ missing →
    f.read cut = .error .endOfInput

theorem rejectsCuts_varint {w : Width} {more : Nat} (hbytes : w.maxBytes = more + 1)
    (hlast : w.maxLast < 128) : (varint w).RejectsCuts (· < capacity w.maxLast more) := by
  intro n cut missing hn hmissing h
  have hread : (varint w).read = readVarint w.maxLast (more + 1) := by
    rw [varint, hbytes]
  rw [hread]
  exact readVarint_cut hlast hn hmissing h

/-! ## Combinators -/

theorem error_bind {ε γ δ : Type} (error : ε) (next : γ → Except ε δ) :
    (Except.error error >>= next) = .error error := rfl

theorem RejectsCuts.seq {fits' : β → Prop} (hf : f.RejectsCuts fits)
    (hback : f.ReadsBack fits back) (hg : g.RejectsCuts fits') :
    (f.seq g).RejectsCuts fun v => fits v.1 ∧ fits' v.2 := by
  rintro ⟨a, b⟩ cut missing ⟨ha, hb⟩ hmissing h
  rcases cut_append h with ⟨lost, hlost, hfirst⟩ | ⟨left, rfl, hrest⟩
  · simp only [Format.seq, hf a cut lost ha hlost hfirst, error_bind]
  · simp only [Format.seq, hback a left ha, ok_bind, hg b left missing hb hmissing hrest,
      error_bind]

theorem RejectsCuts.via {into : α → β} {outOf : β → α} {fits' : β → Prop}
    (hf : f.RejectsCuts fits) (hfits : ∀ v, fits' v → fits (outOf v)) :
    (f.via into outOf).RejectsCuts fits' := by
  intro v cut missing hv hmissing h
  simp only [Format.via, hf (outOf v) cut missing (hfits v hv) hmissing h, error_bind]

/-- Whether a type has room for a value is asked only of a value that was read to its end. -/
theorem RejectsCuts.narrow {into : α → Option β} {outOf : β → α} {error : DecodeError}
    {fits' : β → Prop} (hf : f.RejectsCuts fits) (hfits : ∀ v, fits' v → fits (outOf v)) :
    (f.narrow into outOf error).RejectsCuts fits' := by
  intro v cut missing hv hmissing h
  simp only [Format.narrow, hf (outOf v) cut missing (hfits v hv) hmissing h, error_bind]

/-- Values read one after another: those before the cut are read back, the one in it is rejected. -/
theorem readMany_cut (hf : f.RejectsCuts fits) (hback : f.ReadsBack fits back) {values : List α}
    (hvalues : ∀ v ∈ values, fits v) {cut missing : List UInt8} (hmissing : missing ≠ [])
    (h : values.flatMap f.write = cut ++ missing) :
    readMany f.read values.length cut = .error .endOfInput := by
  induction values generalizing cut with
  | nil =>
    obtain ⟨-, hnone⟩ := List.append_eq_nil_iff.mp h.symm
    exact absurd hnone hmissing
  | cons v values ih =>
    obtain ⟨hv, hvalues⟩ := List.forall_mem_cons.mp hvalues
    rw [List.flatMap_cons] at h
    rcases cut_append h with ⟨lost, hlost, hfirst⟩ | ⟨left, rfl, hrest⟩
    · simp only [List.length_cons, readMany, hf v cut lost hv hlost hfirst, error_bind]
    · simp only [List.length_cons, readMany, hback v left hv, ok_bind, ih hvalues hrest, error_bind]

section Counted

variable {count : Format Nat} {bound : Nat} (hcount : count.RejectsCuts (· < bound))
  (hback : count.ReadsBack (· < bound) id)

include hcount hback

theorem RejectsCuts.list (hf : f.RejectsCuts fits) (hf' : f.ReadsBack fits back) :
    (list count f).RejectsCuts fun values => values.length < bound ∧ ∀ v ∈ values, fits v := by
  rintro values cut missing ⟨hlength, hvalues⟩ hmissing h
  rcases cut_append h with ⟨lost, hlost, hfirst⟩ | ⟨left, rfl, hrest⟩
  · simp only [Format.list, hcount _ cut lost hlength hlost hfirst, error_bind]
  · simp only [Format.list, hback _ left hlength, ok_bind]
    exact readMany_cut hf hf' hvalues hmissing hrest

/-- The length of a byte string tells that bytes are missing before any of them is looked at. -/
theorem rejectsCuts_byteString :
    (byteString count).RejectsCuts fun bytes => bytes.length < bound := by
  intro bytes cut missing hlength hmissing h
  rcases cut_append h with ⟨lost, hlost, hfirst⟩ | ⟨left, rfl, hrest⟩
  · simp only [byteString, hcount _ cut lost hlength hlost hfirst, error_bind]
  · have hshort : ¬bytes.length ≤ left.length := by
      have hpositive : 0 < missing.length := List.length_pos_iff.mpr hmissing
      rw [hrest, List.length_append]
      omega
    simp only [byteString, hback _ left hlength, ok_bind, id]
    rw [takeBytes, if_neg hshort]
    rfl

theorem rejectsCuts_text :
    (text count).RejectsCuts fun s => s.toUTF8.data.toList.length < bound := by
  apply (rejectsCuts_byteString hcount hback).narrow
  intro s hs
  exact hs

theorem RejectsCuts.sortedMap [Ord κ] [Std.TransOrd κ] [Std.LawfulEqOrd κ] {key : Format κ}
    {fitsKey : κ → Prop} {backKey : κ → κ} (hkey : key.RejectsCuts fitsKey)
    (hkey' : key.ReadsBack fitsKey backKey) (hf : f.RejectsCuts fits)
    (hf' : f.ReadsBack fits back) :
    (Format.sortedMap count key f).RejectsCuts fun m =>
      m.entries.length < bound ∧ ∀ entry ∈ m.entries, fitsKey entry.1 ∧ fits entry.2 := by
  apply (RejectsCuts.list hcount hback (hkey.seq hkey' hf) (hkey'.seq hf')).via
  intro m hm
  exact hm

end Counted

/-! ## Numbers of a width -/

theorem rejectsCuts_varint16 : (varint ⟨16⟩).RejectsCuts (· < 65536) := by
  have hcapacity : capacity (Width.maxLast ⟨16⟩) 2 = 65536 := by decide
  rw [← hcapacity]
  exact rejectsCuts_varint rfl (by decide)

theorem rejectsCuts_word16 : word16.RejectsCuts fun _ => True := by
  apply rejectsCuts_varint16.via
  intro v _
  exact v.toNat_lt

theorem rejectsCuts_varint32 : (varint ⟨32⟩).RejectsCuts (· < 4294967296) := by
  have hcapacity : capacity (Width.maxLast ⟨32⟩) 4 = 4294967296 := by decide
  rw [← hcapacity]
  exact rejectsCuts_varint rfl (by decide)

theorem rejectsCuts_word32 : word32.RejectsCuts fun _ => True := by
  apply rejectsCuts_varint32.via
  intro v _
  exact v.toNat_lt

theorem rejectsCuts_count : count.RejectsCuts (· < countLimit) := by
  have hcapacity : capacity (Width.maxLast ⟨64⟩) 9 = countLimit := by decide
  rw [← hcapacity]
  exact rejectsCuts_varint rfl (by decide)

theorem rejectsCuts_signed32 : signed32.RejectsCuts fun _ => True := by
  apply rejectsCuts_varint32.via
  intro v _
  exact fold_lt v

/-! ## Images -/

theorem rejectsCuts_string : string.RejectsCuts fun s => s.utf8ByteSize < countLimit :=
  rejectsCuts_text rejectsCuts_count readsBack_count

theorem rejectsCuts_version : version.RejectsCuts fun _ => True := by
  have hminor := rejectsCuts_word16.seq readsBack_word16 rejectsCuts_word16
  apply (rejectsCuts_word16.seq readsBack_word16 hminor).via
  intro v _
  exact ⟨trivial, trivial, trivial⟩

/-- The number of an opcode is one byte, so a cut leaves nothing of it to be unknown. -/
theorem rejectsCuts_opcode : opcode.RejectsCuts fun _ => True := by
  apply rejectsCuts_varint32.narrow
  intro op _
  cases op <;> decide

theorem rejectsCuts_instruction : instruction.RejectsCuts fun _ => True := by
  have hoperands := rejectsCuts_signed32.seq readsBack_signed32 rejectsCuts_signed32
  apply (rejectsCuts_opcode.seq readsBack_opcode hoperands).via
  intro i _
  exact ⟨trivial, trivial, trivial⟩

theorem rejectsCuts_code : code.RejectsCuts fun c => c.size < countLimit := by
  apply (RejectsCuts.list rejectsCuts_count readsBack_count rejectsCuts_instruction
    readsBack_instruction).via
  intro c hc
  refine ⟨?_, fun _ _ => trivial⟩
  rw [Array.length_toList, Code.instructions, Array.size_mapIdx]
  exact hc

theorem rejectsCuts_position : position.RejectsCuts fun _ => True := by
  apply (rejectsCuts_word32.seq readsBack_word32 rejectsCuts_word32).via
  intro v _
  exact ⟨trivial, trivial⟩

theorem rejectsCuts_sourceSpan :
    sourceSpan.RejectsCuts fun s => s.file.utf8ByteSize < countLimit := by
  have hpositions := rejectsCuts_position.seq readsBack_position rejectsCuts_position
  apply (rejectsCuts_string.seq readsBack_string hpositions).via
  intro s hs
  exact ⟨hs, trivial, trivial⟩

theorem rejectsCuts_routine : routine.RejectsCuts Routine.Fits := by
  have hspans := RejectsCuts.sortedMap rejectsCuts_count readsBack_count rejectsCuts_count
    readsBack_count rejectsCuts_sourceSpan readsBack_sourceSpan
  have hspans' := ReadsBack.sortedMap readsBack_count readsBack_count readsBack_sourceSpan
  apply (rejectsCuts_code.seq readsBack_code (hspans.seq hspans' rejectsCuts_count)).via
  intro r hr
  exact ⟨hr.code, hr.spans, hr.argCount⟩

theorem rejectsCuts_program : program.RejectsCuts Program.Fits := by
  have hroutines := RejectsCuts.list rejectsCuts_count readsBack_count rejectsCuts_routine
    readsBack_routine
  have hroutines' := ReadsBack.list readsBack_count readsBack_routine
  have hstrings := RejectsCuts.list rejectsCuts_count readsBack_count rejectsCuts_string
    readsBack_string
  have hstrings' := ReadsBack.list readsBack_count readsBack_string
  have hexports := RejectsCuts.sortedMap rejectsCuts_count readsBack_count rejectsCuts_string
    readsBack_string rejectsCuts_count readsBack_count
  have hexports' := ReadsBack.sortedMap readsBack_count readsBack_string readsBack_count
  have hvalues := RejectsCuts.sortedMap rejectsCuts_count readsBack_count rejectsCuts_string
    readsBack_string rejectsCuts_signed32 readsBack_signed32
  have hvalues' := ReadsBack.sortedMap readsBack_count readsBack_string readsBack_signed32
  apply (hroutines.seq hroutines' (hstrings.seq hstrings'
    (hexports.seq hexports' (hvalues.seq hvalues' hstrings)))).via
  intro p hp
  refine ⟨⟨hp.routines.1, fun r hr => hp.routines.2 r (Array.mem_toList_iff.mp hr)⟩,
    hp.undefinedNames, hp.exports, ⟨hp.enumValues.1, fun entry hentry => ?_⟩, hp.strings⟩
  exact ⟨hp.enumValues.2 entry hentry, trivial⟩

theorem rejectsCuts_image : image.RejectsCuts fun v => v.2.Fits := by
  intro v cut missing hv hmissing h
  exact rejectsCuts_version.seq readsBack_version rejectsCuts_program v cut missing ⟨trivial, hv⟩
    hmissing h

end Format

/-- Of the beginnings of the image of a program the whole image is read as the program, without its
patches, and every other one is rejected because it ends too early. -/
theorem decode_beginning (p : Program) (hp : p.Fits) (cut : List UInt8) (hcut : cut <+: encode p) :
    decode cut =
      if cut = encode p then .ok p.unpatched else .error (.malformed .endOfInput) := by
  split
  · rename_i hwhole
    have hread := Format.readsBack_image (Version.current, p) [] hp
    rw [List.append_nil] at hread
    rw [hwhole, encode, decode, hread]
    exact if_pos ⟨rfl, rfl⟩
  · rename_i hproper
    obtain ⟨missing, hmissing⟩ := hcut
    have hsome : missing ≠ [] := by
      rintro rfl
      exact hproper ((List.append_nil cut).symm.trans hmissing)
    have hread : Format.image.read cut = .error .endOfInput :=
      Format.rejectsCuts_image (Version.current, p) cut missing hp hsome hmissing.symm
    rw [decode, hread]

/-- The image of a routine that returns a number of two bytes. Cut between these two bytes, or
within the name of the routine, it is rejected as truncated. -/
theorem decode_beginning_thousand :
    ∃ p : Program, p.Fits ∧
      encode p =
        [0, 1, 0, 1, 2, 4, 208, 15, 0, 7, 0, 0, 0, 0, 0, 1, 4, 107, 105, 108, 111, 0, 0, 0] ∧
      decode (encode p) = .ok p ∧
      decode [0, 1, 0, 1, 2, 4, 208] = .error (.malformed .endOfInput) ∧
      decode [0, 1, 0, 1, 2, 4, 208, 15, 0, 7, 0, 0, 0, 0, 0, 1, 4, 107, 105] =
        .error (.malformed .endOfInput) := by
  let p : Program := .single "kilo" #[{ op := .push, immediate := 1000 }, { op := .ret }]
  have hfits : p.Fits := ⟨by decide, by decide, by decide, by decide, by decide⟩
  have hencode : encode p =
      [0, 1, 0, 1, 2, 4, 208, 15, 0, 7, 0, 0, 0, 0, 0, 1, 4, 107, 105, 108, 111, 0, 0, 0] := by
    decide +kernel
  refine ⟨p, hfits, hencode, ?_, ?_, ?_⟩
  · have hplain : p.unpatched = p := Program.unpatched_eq_self_iff.mpr (by decide)
    rw [decode_beginning p hfits _ (List.prefix_refl _), if_pos rfl, hplain]
  · rw [decode_beginning p hfits _ (by rw [hencode]; decide), hencode]
    rfl
  · rw [decode_beginning p hfits _ (by rw [hencode]; decide), hencode]
    rfl

end BytecodeDebugger.Wire
