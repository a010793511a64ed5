import BytecodeDebugger.Proofs.ImageRoundTrip

/-!
# The image of a program is its shortest form

A reader accepts more than a writer produces: numbers with groups of zeros at their end, tables with
their keys in any order or with a key repeated, another patch version, bytes behind the program.
Whatever it accepts, the program it finds has no patches, and the image of that program is read as
the same program and is no longer than what was read.

## Implementation notes

The law of a format is about every input that it reads, not only about its own bytes: the value that
is found fits, and is written in no more bytes than were taken from the input. As for reading back,
it is proved once for each combinator and for the numbers at the leaves. A table loses bindings when
a key is repeated, so its law needs that fewer members have no longer a count.
-/

namespace BytecodeDebugger

namespace SortedMap

universe u v w

variable {κ : Type u} {α : Type v} {β : Type w} [Ord κ] [Std.TransOrd κ] [Std.LawfulEqOrd κ]

omit [Std.TransOrd κ] [Std.LawfulEqOrd κ] in
/-- A binding takes the place of another or is added, so what is written for the bindings grows by no
more than what is written for the new one. -/
theorem length_flatMap_insertEntry (write : κ × α → List β) (key : κ) (value : α)
    (list : List (κ × α)) :
    ((insertEntry key value list).flatMap write).length ≤
      (write (key, value)).length + (list.flatMap write).length := by
  induction list with
  | nil => simp [insertEntry]
  | cons head rest ih =>
    rw [insertEntry]
    split
    · simp
    · simp
    · simp only [List.flatMap_cons, List.length_append]
      omega

/-- The map of a list has nothing more to write than the list. -/
theorem length_flatMap_ofList (write : κ × α → List β) (list : List (κ × α)) :
    ((ofList list).entries.flatMap write).length ≤ (list.flatMap write).length := by
  have hfold (m : SortedMap κ α) :
      ((list.foldl (fun m entry => m.insert entry.1 entry.2) m).entries.flatMap write).length ≤
        (m.entries.flatMap write).length + (list.flatMap write).length := by
    induction list generalizing m with
    | nil => simp
    | cons head rest ih =>
      have hinsert := length_flatMap_insertEntry write head.1 head.2 m.entries
      calc
        _ ≤ ((m.insert head.1 head.2).entries.flatMap write).length +
            (rest.flatMap write).length := ih (m.insert head.1 head.2)
        _ ≤ (write head).length + (m.entries.flatMap write).length +
            (rest.flatMap write).length := Nat.add_le_add_right hinsert _
        _ = (m.entries.flatMap write).length + ((head :: rest).flatMap write).length := by
          rw [List.flatMap_cons, List.length_append]
          omega
  have hempty := hfold ∅
  rwa [show (∅ : SortedMap κ α).entries.flatMap write = [] from rfl, List.length_nil,
    Nat.zero_add] at hempty

theorem length_ofList_le (list : List (κ × α)) : (ofList list).entries.length ≤ list.length := by
  have hsingles := length_flatMap_ofList (fun entry => [entry]) list
  rwa [List.flatMap_singleton', List.flatMap_singleton'] at hsingles

/-- The bindings of the map of a list are from that list. -/
theorem mem_of_mem_ofList {list : List (κ × α)} {entry : κ × α}
    (h : entry ∈ (ofList list).entries) : entry ∈ list := by
  have hfold (list : List (κ × α)) (m : SortedMap κ α)
      (h : entry ∈ (list.foldl (fun m entry => m.insert entry.1 entry.2) m).entries) :
      entry ∈ m.entries ∨ entry ∈ list := by
    induction list generalizing m with
    | nil => exact .inl h
    | cons head rest ih =>
      rcases ih (m.insert head.1 head.2) h with hm | hrest
      · rcases mem_insertEntry hm with rfl | hm
        · exact .inr List.mem_cons_self
        · exact .inl hm
      · exact .inr (List.mem_cons_of_mem head hrest)
  rcases hfold list ∅ h with hnone | hlist
  · cases hnone
  · exact hlist

end SortedMap

namespace Opcode

/-- An opcode is found under no number but its own. -/
theorem number_of_ofNumber? {n : Nat} {op : Opcode} (h : ofNumber? n = some op) :
    op.number = n := by
  have hnodup : all.Nodup := by decide
  obtain ⟨hlt, rfl⟩ := List.getElem?_eq_some_iff.mp h
  exact hnodup.idxOf_getElem n hlt

end Opcode

namespace Wire

/-! ## Numbers -/

theorem length_varintBytes_pos (n : Nat) : 1 ≤ (varintBytes n).length := by
  rw [varintBytes]
  split <;> simp

/-- A larger number has no fewer bytes. -/
theorem length_varintBytes_mono {m n : Nat} (h : m ≤ n) :
    (varintBytes m).length ≤ (varintBytes n).length := by
  induction n using Nat.strongRecOn generalizing m with
  | ind n ih =>
    by_cases hm : m < 128
    · rw [varintBytes_of_lt hm]
      exact length_varintBytes_pos n
    · have hquotient := ih (n / 128) (by omega) (Nat.div_le_div_right (c := 128) h)
      rw [varintBytes_of_le (by omega : 128 ≤ m), varintBytes_of_le (by omega : 128 ≤ n),
        List.length_cons, List.length_cons]
      omega

theorem capacity_pos (maxLast more : Nat) : 1 ≤ capacity maxLast more := by
  induction more with
  | zero =>
    rw [capacity]
    omega
  | succ more ih =>
    rw [capacity]
    omega

/-- A number and its groups: one byte for the lowest group, and at most the bytes of the rest. -/
theorem length_varintBytes_group {low : Nat} (hlow : low < 128) (high : Nat) :
    (varintBytes (low + 128 * high)).length ≤ 1 + (varintBytes high).length := by
  by_cases hsmall : low + 128 * high < 128
  · rw [varintBytes_of_lt hsmall, List.length_singleton]
    omega
  · have hquotient : (low + 128 * high) / 128 = high := by omega
    rw [varintBytes_of_le (by omega), hquotient, List.length_cons]
    omega

theorem bind_eq_ok {ε γ δ : Type} {first : Except ε γ} {next : γ → Except ε δ} {result : δ}
    (h : (first >>= next) = .ok result) : ∃ value, first = .ok value ∧ next value = .ok result := by
  cases first with
  | error error => cases h
  | ok value => exact ⟨value, rfl, h⟩

/-- A number that is read is below the capacity, and its own bytes are no more than those read. By
induction on the number of bytes that are allowed. -/
theorem length_varintBytes_of_readVarint {maxLast more n : Nat} {bytes rest : List UInt8}
    (h : readVarint maxLast (more + 1) bytes = .ok (n, rest)) :
    n < capacity maxLast more ∧ (varintBytes n).length + rest.length ≤ bytes.length := by
  induction more generalizing n bytes with
  | zero =>
    cases bytes with
    | nil => cases h
    | cons byte tail =>
      rw [readVarint] at h
      split at h
      · rename_i hsmall
        split at h
        · cases h
        · rename_i hallowed
          cases h
          rw [varintBytes_of_lt hsmall, capacity, List.length_singleton, List.length_cons]
          omega
      · cases h
  | succ more ih =>
    cases bytes with
    | nil => cases h
    | cons byte tail =>
      have hcapacity := capacity_pos maxLast more
      rw [readVarint] at h
      split at h
      · rename_i hsmall
        split at h
        · cases h
        · cases h
          rw [varintBytes_of_lt hsmall, capacity, List.length_singleton, List.length_cons]
          omega
      · obtain ⟨⟨high, behind⟩, hhigh, heq⟩ := bind_eq_ok h
        cases heq
        obtain ⟨hbound, hlength⟩ := ih hhigh
        have hbyte : byte.toNat < 256 := byte.toNat_lt
        have hlow : byte.toNat - 128 < 128 := by omega
        have hgroup := length_varintBytes_group hlow high
        rw [capacity, List.length_cons]
        omega

namespace Format

variable {α β κ : Type} {f : Format α} {g : Format β} {fits : α → Prop}

/-- A value that is read fits, and is written in no more bytes than were taken for it. -/
def Tightens (f : Format α) (fits : α → Prop) : Prop :=
  ∀ bytes value rest, f.read bytes = .ok (value, rest) →
    fits value ∧ (f.write value).length + rest.length ≤ bytes.length

theorem tightens_varint {w : Width} {more : Nat} (hbytes : w.maxBytes = more + 1) :
    (varint w).Tightens (· < capacity w.maxLast more) := by
  intro bytes n rest h
  have hread : (varint w).read = readVarint w.maxLast (more + 1) := by
    rw [varint, hbytes]
  rw [hread] at h
  exact length_varintBytes_of_readVarint h

/-! ## Combinators -/

theorem Tightens.seq {fits' : β → Prop} (hf : f.Tightens fits) (hg : g.Tightens fits') :
    (f.seq g).Tightens fun v => fits v.1 ∧ fits' v.2 := by
  intro bytes v rest h
  obtain ⟨⟨a, behind⟩, hfirst, h⟩ := bind_eq_ok h
  obtain ⟨⟨b, rest'⟩, hsecond, h⟩ := bind_eq_ok h
  cases h
  obtain ⟨ha, hfirst⟩ := hf _ _ _ hfirst
  obtain ⟨hb, hsecond⟩ := hg _ _ _ hsecond
  refine ⟨⟨ha, hb⟩, ?_⟩
  change (f.write a ++ g.write b).length + rest.length ≤ bytes.length
  rw [List.length_append]
  omega

/-- Another type for the same bytes: what is taken out of it again must be no longer. -/
theorem Tightens.via_of_le {into : α → β} {outOf : β → α} {fits' : β → Prop} (hf : f.Tightens fits)
    (hfits : ∀ v, fits v → fits' (into v))
    (hlength : ∀ v, fits v → (f.write (outOf (into v))).length ≤ (f.write v).length) :
    (f.via into outOf).Tightens fits' := by
  intro bytes v rest h
  obtain ⟨⟨a, behind⟩, hread, h⟩ := bind_eq_ok h
  cases h
  obtain ⟨ha, hread⟩ := hf _ _ _ hread
  refine ⟨hfits a ha, ?_⟩
  calc
    _ ≤ (f.write a).length + rest.length := Nat.add_le_add_right (hlength a ha) _
    _ ≤ bytes.length := hread

theorem Tightens.via {into : α → β} {outOf : β → α} {fits' : β → Prop} (hf : f.Tightens fits)
    (hfits : ∀ v, fits v → fits' (into v)) (hback : ∀ v, fits v → outOf (into v) = v) :
    (f.via into outOf).Tightens fits' := by
  apply hf.via_of_le hfits
  intro v hv
  exact Nat.le_of_eq (congrArg (fun w => (f.write w).length) (hback v hv))

theorem Tightens.narrow {into : α → Option β} {outOf : β → α} {error : DecodeError}
    {fits' : β → Prop} (hf : f.Tightens fits)
    (hinto : ∀ a b, fits a → into a = some b → fits' b ∧ outOf b = a) :
    (f.narrow into outOf error).Tightens fits' := by
  intro bytes v rest h
  obtain ⟨⟨a, behind⟩, hread, h⟩ := bind_eq_ok h
  obtain ⟨ha, hread⟩ := hf _ _ _ hread
  simp only at h
  split at h
  · rename_i b hb
    cases h
    obtain ⟨hfits, hback⟩ := hinto a v ha hb
    refine ⟨hfits, ?_⟩
    change (f.write (outOf v)).length + rest.length ≤ bytes.length
    rwa [hback]
  · cases h

/-- Values read one after another, as many as were asked for. -/
theorem Tightens.readMany (hf : f.Tightens fits) {n : Nat} {bytes rest : List UInt8}
    {values : List α} (h : readMany f.read n bytes = .ok (values, rest)) :
    values.length = n ∧ (∀ v ∈ values, fits v) ∧
      (values.flatMap f.write).length + rest.length ≤ bytes.length := by
  induction n generalizing bytes values with
  | zero =>
    cases h
    exact ⟨rfl, nofun, by simp⟩
  | succ n ih =>
    obtain ⟨⟨a, behind⟩, hread, h⟩ := bind_eq_ok h
    obtain ⟨⟨as, rest'⟩, hmany, h⟩ := bind_eq_ok h
    cases h
    obtain ⟨ha, hfirst⟩ := hf _ _ _ hread
    obtain ⟨hlength, hall, hothers⟩ := ih hmany
    refine ⟨by rw [List.length_cons, hlength], List.forall_mem_cons.mpr ⟨ha, hall⟩, ?_⟩
    rw [List.flatMap_cons, List.length_append]
    omega

section Counted

variable {count : Format Nat} {bound : Nat} (hcount : count.Tightens (· < bound))

include hcount

theorem Tightens.list (hf : f.Tightens fits) :
    (list count f).Tightens fun values => values.length < bound ∧ ∀ v ∈ values, fits v := by
  intro bytes values rest h
  obtain ⟨⟨n, behind⟩, hread, h⟩ := bind_eq_ok h
  obtain ⟨hn, hread⟩ := hcount _ _ _ hread
  obtain ⟨rfl, hall, hmany⟩ := hf.readMany h
  refine ⟨⟨hn, hall⟩, ?_⟩
  change (count.write values.length ++ values.flatMap f.write).length + rest.length ≤ bytes.length
  rw [List.length_append]
  omega

theorem tightens_byteString : (byteString count).Tightens fun bytes => bytes.length < bound := by
  intro bytes value rest h
  obtain ⟨⟨n, behind⟩, hread, h⟩ := bind_eq_ok h
  obtain ⟨hn, hread⟩ := hcount _ _ _ hread
  simp only [takeBytes] at h
  split at h
  · rename_i henough
    cases h
    have hlength : (behind.take n).length = n := by
      rw [List.length_take]
      omega
    refine ⟨Nat.lt_of_le_of_lt (Nat.le_of_eq hlength) hn, ?_⟩
    change (count.write (behind.take n).length ++ behind.take n).length + (behind.drop n).length ≤ _
    rw [List.length_append, hlength, List.length_drop]
    omega
  · cases h

/-- The bytes of a text that was read are the bytes it was read from. -/
theorem tightens_text :
    (text count).Tightens fun s => s.toUTF8.data.toList.length < bound := by
  apply (tightens_byteString hcount).narrow
  intro bytes s hlength hs
  have hback : s.toUTF8.data.toList = bytes := by
    rw [String.fromUTF8?] at hs
    split at hs
    · cases hs
      exact congrArg Array.toList List.data_toByteArray
    · cases hs
  exact ⟨by rwa [hback], hback⟩

/-- A table has as many bindings as were read, or fewer if a key was repeated. -/
theorem Tightens.sortedMap [Ord κ] [Std.TransOrd κ] [Std.LawfulEqOrd κ] {key : Format κ}
    {fitsKey : κ → Prop}
    (hmono : ∀ {m n : Nat}, m ≤ n → (count.write m).length ≤ (count.write n).length)
    (hkey : key.Tightens fitsKey) (hf : f.Tightens fits) :
    (Format.sortedMap count key f).Tightens fun m =>
      m.entries.length < bound ∧ ∀ entry ∈ m.entries, fitsKey entry.1 ∧ fits entry.2 := by
  apply (Tightens.list hcount (hkey.seq hf)).via_of_le
  · rintro entries ⟨hlength, hall⟩
    have hfewer := SortedMap.length_ofList_le entries
    exact ⟨by omega, fun entry hentry => hall entry (SortedMap.mem_of_mem_ofList hentry)⟩
  · intro entries _
    have hcounts := hmono (SortedMap.length_ofList_le entries)
    have hwritten := SortedMap.length_flatMap_ofList (key.seq f).write entries
    change (count.write (SortedMap.ofList entries).entries.length ++
        (SortedMap.ofList entries).entries.flatMap (key.seq f).write).length ≤
      (count.write entries.length ++ entries.flatMap (key.seq f).write).length
    rw [List.length_append, List.length_append]
    omega

end Counted

/-! ## Numbers of a width -/

theorem tightens_varint16 : (varint ⟨16⟩).Tightens (· < 65536) := by
  have hcapacity : capacity (Width.maxLast ⟨16⟩) 2 = 65536 := by decide
  rw [← hcapacity]
  exact tightens_varint rfl

theorem tightens_word16 : word16.Tightens fun _ => True := by
  apply tightens_varint16.via
  · intro n _
    trivial
  · intro n hn
    exact UInt16.toNat_ofNat_of_lt hn

theorem tightens_varint32 : (varint ⟨32⟩).Tightens (· < 4294967296) := by
  have hcapacity : capacity (Width.maxLast ⟨32⟩) 4 = 4294967296 := by decide
  rw [← hcapacity]
  exact tightens_varint rfl

theorem tightens_word32 : word32.Tightens fun _ => True := by
  apply tightens_varint32.via
  · intro n _
    trivial
  · intro n hn
    exact UInt32.toNat_ofNat_of_lt hn

theorem tightens_count : count.Tightens (· < countLimit) := by
  have hcapacity : capacity (Width.maxLast ⟨64⟩) 9 = countLimit := by decide
  rw [← hcapacity]
  exact tightens_varint rfl

/-- Folding a signed number of thirty-two bits again gives the number it was unfolded from. -/
theorem fold_unfold {n : Nat} (hn : n < 4294967296) : fold (unfold n) = n := by
  rw [unfold]
  split
  · rename_i heven
    have hvalue : (Int32.ofInt (n / 2 : Nat)).toInt = (n / 2 : Nat) :=
      Int32.toInt_ofInt_of_le (by omega) (by omega)
    rw [fold, hvalue, if_pos (by omega)]
    omega
  · rename_i hodd
    have hvalue : (Int32.ofInt (-(n / 2 : Nat) - 1)).toInt = -(n / 2 : Nat) - 1 :=
      Int32.toInt_ofInt_of_le (by omega) (by omega)
    rw [fold, hvalue, if_neg (by omega)]
    omega

theorem tightens_signed32 : signed32.Tightens fun _ => True := by
  apply tightens_varint32.via
  · intro n _
    trivial
  · intro n hn
    exact fold_unfold hn

/-! ## Images -/

theorem tightens_string : string.Tightens fun s => s.utf8ByteSize < countLimit :=
  tightens_text tightens_count

theorem tightens_version : version.Tightens fun _ => True := by
  apply (tightens_word16.seq (tightens_word16.seq tightens_word16)).via
  · intro v _
    trivial
  · intro v _
    rfl

theorem tightens_opcode : opcode.Tightens fun _ => True := by
  apply tightens_varint32.narrow
  intro n op _ hop
  exact ⟨trivial, Opcode.number_of_ofNumber? hop⟩

theorem tightens_instruction : instruction.Tightens fun _ => True := by
  apply (tightens_opcode.seq (tightens_signed32.seq tightens_signed32)).via
  · intro v _
    trivial
  · intro v _
    rfl

/-- Code that is read has no patches. -/
theorem tightens_code : code.Tightens fun c => c.size < countLimit ∧ c.restoreAll = c := by
  apply (Tightens.list tightens_count tightens_instruction).via
  · rintro instructions ⟨hlength, -⟩
    refine ⟨hlength, ?_⟩
    rw [Code.restoreAll, Code.instructions_ofInstructions]
  · intro instructions _
    rw [Code.instructions_ofInstructions]

theorem tightens_position : position.Tightens fun _ => True := by
  apply (tightens_word32.seq tightens_word32).via
  · intro v _
    trivial
  · intro v _
    rfl

theorem tightens_sourceSpan :
    sourceSpan.Tightens fun s => s.file.utf8ByteSize < countLimit := by
  apply (tightens_string.seq (tightens_position.seq tightens_position)).via
  · rintro v ⟨hfile, -⟩
    exact hfile
  · intro v _
    rfl

theorem tightens_routine : routine.Tightens fun r => r.Fits ∧ r.unpatched = r := by
  have hspans := Tightens.sortedMap tightens_count length_varintBytes_mono tightens_count
    tightens_sourceSpan
  apply (tightens_code.seq (hspans.seq tightens_count)).via
  · rintro ⟨code, spans, argCount⟩ ⟨⟨hsize, hplain⟩, hspans, hargs⟩
    refine ⟨⟨hsize, hspans, hargs⟩, ?_⟩
    rw [Routine.unpatched, hplain]
  · intro v _
    rfl

/-- A program that is read fits an image and has no patches. -/
theorem tightens_program : program.Tightens fun p => p.Fits ∧ p.unpatched = p := by
  have hroutines := Tightens.list tightens_count tightens_routine
  have hstrings := Tightens.list tightens_count tightens_string
  have hexports := Tightens.sortedMap tightens_count length_varintBytes_mono tightens_string
    tightens_count
  have hvalues := Tightens.sortedMap tightens_count length_varintBytes_mono tightens_string
    tightens_signed32
  apply (hroutines.seq (hstrings.seq (hexports.seq (hvalues.seq hstrings)))).via
  · rintro ⟨routines, undefinedNames, exports, enumValues, strings⟩
      ⟨⟨hcount, hall⟩, hundefined, hexports, ⟨hvalueCount, hvalues⟩, hstrings⟩
    refine ⟨⟨⟨hcount, fun r hr => ?_⟩, hundefined, hexports,
      ⟨hvalueCount, fun entry hentry => (hvalues entry hentry).1⟩, hstrings⟩, ?_⟩
    · exact (hall r (List.mem_toArray.mp hr)).1
    · have hsame : routines.map Routine.unpatched = routines :=
        (List.map_congr_left fun r hr => (hall r hr).2).trans (List.map_id routines)
      rw [Program.unpatched, List.map_toArray, hsame]
  · intro v _
    rfl

end Format

/-- The three numbers of a version take at least a byte each, and those of this version no more. -/
theorem length_write_version_current (v : Version) :
    (Format.version.write Version.current).length ≤ (Format.version.write v).length := by
  have hcurrent : (Format.version.write Version.current).length = 3 := by decide +kernel
  have hmajor := length_varintBytes_pos v.major.toNat
  have hminor := length_varintBytes_pos v.minor.toNat
  have hpatch := length_varintBytes_pos v.patch.toNat
  have hwritten : (Format.version.write v).length = (varintBytes v.major.toNat).length +
      ((varintBytes v.minor.toNat).length + (varintBytes v.patch.toNat).length) := by
    change (varintBytes _ ++ (varintBytes _ ++ varintBytes _)).length = _
    rw [List.length_append, List.length_append]
  omega

/-- Whatever bytes are accepted as the image of a program, the program has no patches, and its own
image is read as that program and is no longer than the bytes. -/
theorem decode_shortest (bytes : List UInt8) (p : Program) (h : decode bytes = .ok p) :
    p.IsPlain ∧ decode (encode p) = .ok p ∧ (encode p).length ≤ bytes.length := by
  rw [decode] at h
  split at h
  · cases h
  · rename_i found program rest hread
    split at h
    · rename_i hcompatible
      cases h
      obtain ⟨⟨-, hfits, hplain⟩, hlength⟩ :=
        (Format.tightens_version.seq Format.tightens_program) _ _ _ hread
      have hback := Format.readsBack_image (Version.current, p) [] hfits
      refine ⟨Program.unpatched_eq_self_iff.mp hplain, ?_, ?_⟩
      · rw [List.append_nil] at hback
        rw [encode, decode, hback]
        change (if _ then Except.ok p.unpatched else _) = _
        rw [if_pos ⟨rfl, rfl⟩, hplain]
      · have hversion := length_write_version_current found
        change (Format.version.write found ++ Format.program.write p).length + rest.length ≤ _
          at hlength
        change (Format.version.write Version.current ++ Format.program.write p).length ≤ _
        rw [List.length_append] at hlength ⊢
        omega
    · cases h

/-- Bytes with a count that ends in a group of zeros, names out of order and one of them twice,
another patch version and a byte behind the program. They are read as a program whose image is
shorter. -/
theorem decode_shortest_overlong :
    ∃ p : Program,
      decode [0, 1, 7, 129, 0, 1, 7, 0, 0, 0, 0, 0, 3, 1, 98, 0, 1, 97, 0, 1, 98, 0, 0, 0, 255] =
        .ok p ∧
      p.exports.entries = [("a", 0), ("b", 0)] ∧ p.IsPlain ∧ decode (encode p) = .ok p ∧
      (encode p).length ≤ 25 ∧
      encode p = [0, 1, 0, 1, 1, 7, 0, 0, 0, 0, 0, 2, 1, 97, 0, 1, 98, 0, 0, 0] := by
  let p : Program :=
    { routines := #[{ code := .ofInstructions #[{ op := .ret }] }]
      exports := .ofList [("a", 0), ("b", 0)] }
  have hread : decode
      [0, 1, 7, 129, 0, 1, 7, 0, 0, 0, 0, 0, 3, 1, 98, 0, 1, 97, 0, 1, 98, 0, 0, 0, 255] = .ok p :=
    rfl
  obtain ⟨hplain, hback, hlength⟩ := decode_shortest _ p hread
  exact ⟨p, hread, by decide +kernel, hplain, hback, hlength, by decide +kernel⟩

end Wire

end BytecodeDebugger
