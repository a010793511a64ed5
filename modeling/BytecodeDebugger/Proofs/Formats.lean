import BytecodeDebugger.Wire.Varint

/-!
# What is written is read back

The law of byte formats. A format reads its own bytes back if the bytes of every value that fits are
read to the end and no further, whatever follows them. The law is proved once for each combinator
and for the numbers at the leaves.

## Implementation notes

A format may drop a part of a value, as the format of code drops its patches. So the law says what a
value is read back as. For most formats that is the value itself.

The bound of a number is `capacity`, which follows the recursion of the reader. It is a power of two
for the widths in use.
-/

namespace BytecodeDebugger

namespace SortedMap

universe u v

variable {κ : Type u} {α : Type v} [Ord κ] [Std.TransOrd κ]

/-- A binding whose key is above all others goes to the end. -/
theorem insertEntry_of_forall_lt {key : κ} {value : α} {list : List (κ × α)}
    (h : ∀ entry ∈ list, compare entry.1 key = .lt) :
    insertEntry key value list = list ++ [(key, value)] := by
  induction list with
  | nil => rfl
  | cons head rest ih =>
    obtain ⟨hhead, hrest⟩ := List.forall_mem_cons.mp h
    have hgt : compare key head.1 = .gt := Std.OrientedCmp.gt_iff_lt.mpr hhead
    rw [insertEntry, hgt]
    simp only [List.cons_append, ih hrest]

variable [Std.LawfulEqOrd κ]

/-- Inserting ascending bindings, all of them above those of a map, appends them. -/
theorem entries_foldl_insert (m : SortedMap κ α) (list : List (κ × α))
    (h : (m.entries ++ list).Pairwise fun a b => compare a.1 b.1 = .lt) :
    (list.foldl (fun m entry => m.insert entry.1 entry.2) m).entries = m.entries ++ list := by
  induction list generalizing m with
  | nil => rw [List.foldl_nil, List.append_nil]
  | cons head rest ih =>
    have hbelow : ∀ entry ∈ m.entries, compare entry.1 head.1 = .lt := by
      intro entry hentry
      exact (List.pairwise_append.mp h).2.2 entry hentry head List.mem_cons_self
    have hinsert : (m.insert head.1 head.2).entries = m.entries ++ [head] :=
      insertEntry_of_forall_lt hbelow
    have hrest : (m.entries ++ head :: rest) = (m.insert head.1 head.2).entries ++ rest := by
      rw [hinsert, List.append_assoc, List.singleton_append]
    rw [List.foldl_cons, hrest]
    exact ih _ (hrest ▸ h)

/-- A map is the map of its bindings. -/
theorem ofList_entries (m : SortedMap κ α) : ofList m.entries = m := by
  apply SortedMap.ext
  exact entries_foldl_insert ∅ m.entries m.sorted

end SortedMap

namespace Wire

/-! ## Numbers -/

/-- How many numbers have at most so many bytes before a last one, which is at most `maxLast`. -/
def capacity (maxLast : Nat) : Nat → Nat
  | 0 => maxLast + 1
  | more + 1 => 128 * capacity maxLast more

theorem varintBytes_of_lt {n : Nat} (h : n < 128) : varintBytes n = [n.toUInt8] := by
  rw [varintBytes, if_pos h]

theorem varintBytes_of_le {n : Nat} (h : 128 ≤ n) :
    varintBytes n = (n % 128 + 128).toUInt8 :: varintBytes (n / 128) := by
  rw [varintBytes, if_neg (by omega)]

theorem toNat_toUInt8_of_lt {n : Nat} (h : n < 256) : n.toUInt8.toNat = n :=
  UInt8.toNat_ofNat_of_lt h

/-- A number below the capacity is read back. By induction on the number of bytes that are left: the
first byte holds the remainder by 128, and the quotient has one byte less. -/
theorem readVarint_varintBytes {maxLast more n : Nat} (hlast : maxLast < 128)
    (hn : n < capacity maxLast more) (rest : List UInt8) :
    readVarint maxLast (more + 1) (varintBytes n ++ rest) = .ok (n, rest) := by
  induction more generalizing n with
  | zero =>
    have hle : n ≤ maxLast := Nat.le_of_lt_succ hn
    have hbyte : n.toUInt8.toNat = n := toNat_toUInt8_of_lt (by omega)
    rw [varintBytes_of_lt (by omega), List.singleton_append, readVarint, hbyte, if_pos (by omega),
      if_neg (by omega)]
    rfl
  | succ more ih =>
    by_cases hsmall : n < 128
    · have hbyte : n.toUInt8.toNat = n := toNat_toUInt8_of_lt (by omega)
      rw [varintBytes_of_lt hsmall, List.singleton_append, readVarint, hbyte, if_pos hsmall,
        if_neg (by omega)]
      rfl
    · have hbyte : (n % 128 + 128).toUInt8.toNat = n % 128 + 128 :=
        toNat_toUInt8_of_lt (by omega)
      have hquotient : n / 128 < capacity maxLast more := by
        rw [capacity] at hn
        omega
      rw [varintBytes_of_le (by omega), List.cons_append, readVarint, hbyte, if_neg (by omega),
        ih hquotient]
      have hsum : n % 128 + 128 - 128 + 128 * (n / 128) = n := by omega
      exact congrArg (fun k => Except.ok (k, rest)) hsum

namespace Format

variable {α β κ : Type} {f : Format α} {g : Format β} {fits : α → Prop} {back : α → α}

/-- The bytes of a value that fits are read to their end, and the value is read back as `back` of
it. -/
def ReadsBack (f : Format α) (fits : α → Prop) (back : α → α) : Prop :=
  ∀ value rest, fits value → f.read (f.write value ++ rest) = .ok (back value, rest)

theorem readsBack_varint {w : Width} {more : Nat} (hbytes : w.maxBytes = more + 1)
    (hlast : w.maxLast < 128) : (varint w).ReadsBack (· < capacity w.maxLast more) id := by
  intro n rest hn
  have hread : (varint w).read = readVarint w.maxLast (more + 1) := by
    rw [varint, hbytes]
  rw [hread]
  exact readVarint_varintBytes hlast hn rest

/-! ## Combinators -/

theorem ok_bind {ε γ δ : Type} (value : γ) (next : γ → Except ε δ) :
    (Except.ok value >>= next) = next value := rfl

theorem ReadsBack.seq {fits' : β → Prop} {back' : β → β} (hf : f.ReadsBack fits back)
    (hg : g.ReadsBack fits' back') :
    (f.seq g).ReadsBack (fun v => fits v.1 ∧ fits' v.2) fun v => (back v.1, back' v.2) := by
  rintro ⟨a, b⟩ rest ⟨ha, hb⟩
  simp only [Format.seq, List.append_assoc, hf a _ ha, ok_bind, hg b rest hb]
  rfl

/-- Another type for the same bytes: it is enough to follow a value through both. -/
theorem ReadsBack.via {into : α → β} {outOf : β → α} {fits' : β → Prop} {back' : β → β}
    (hf : f.ReadsBack fits back) (hfits : ∀ v, fits' v → fits (outOf v))
    (hback : ∀ v, into (back (outOf v)) = back' v) :
    (f.via into outOf).ReadsBack fits' back' := by
  intro v rest hv
  simp only [Format.via, hf _ rest (hfits v hv), ok_bind, hback v]
  rfl

/-- A type that has room for some values only: those that are written must be among them. -/
theorem ReadsBack.narrow {into : α → Option β} {outOf : β → α} {error : DecodeError}
    {fits' : β → Prop} {back' : β → β} (hf : f.ReadsBack fits back)
    (hfits : ∀ v, fits' v → fits (outOf v)) (hback : ∀ v, into (back (outOf v)) = some (back' v)) :
    (f.narrow into outOf error).ReadsBack fits' back' := by
  intro v rest hv
  simp only [Format.narrow, hf _ rest (hfits v hv), ok_bind, hback v]
  rfl

theorem readMany_flatMap_write (hf : f.ReadsBack fits back) (values : List α)
    (hvalues : ∀ v ∈ values, fits v) (rest : List UInt8) :
    readMany f.read values.length (values.flatMap f.write ++ rest) =
      .ok (values.map back, rest) := by
  induction values with
  | nil => rfl
  | cons v values ih =>
    obtain ⟨hv, hvalues⟩ := List.forall_mem_cons.mp hvalues
    simp only [List.flatMap_cons, List.append_assoc, List.length_cons, readMany, hf v _ hv, ok_bind,
      ih hvalues]
    rfl

section Counted

variable {count : Format Nat} {bound : Nat} (hcount : count.ReadsBack (· < bound) id)

include hcount

theorem ReadsBack.list (hf : f.ReadsBack fits back) :
    (list count f).ReadsBack (fun values => values.length < bound ∧ ∀ v ∈ values, fits v)
      (List.map back) := by
  rintro values rest ⟨hlength, hvalues⟩
  simp only [Format.list, List.append_assoc, hcount _ _ hlength, ok_bind]
  exact readMany_flatMap_write hf values hvalues rest

theorem readsBack_byteString :
    (byteString count).ReadsBack (fun bytes => bytes.length < bound) id := by
  intro bytes rest hlength
  have henough : bytes.length ≤ (bytes ++ rest).length := by
    rw [List.length_append]
    omega
  simp only [byteString, List.append_assoc, hcount _ _ hlength, ok_bind, id]
  rw [takeBytes, if_pos henough, List.take_left, List.drop_left]
  rfl

/-- Every text is UTF-8. -/
theorem readsBack_text :
    (text count).ReadsBack (fun s => s.toUTF8.data.toList.length < bound) id := by
  apply (readsBack_byteString hcount).narrow (fun _ hs => hs)
  intro s
  have hbytes : s.toUTF8.data.toList.toByteArray = s.toUTF8 := by
    apply ByteArray.ext
    rw [List.data_toByteArray]
  rw [id, hbytes]
  exact dif_pos s.isValidUTF8

theorem ReadsBack.sortedMap [Ord κ] [Std.TransOrd κ] [Std.LawfulEqOrd κ] {key : Format κ}
    {fitsKey : κ → Prop} (hkey : key.ReadsBack fitsKey id) (hf : f.ReadsBack fits id) :
    (Format.sortedMap count key f).ReadsBack
      (fun m => m.entries.length < bound ∧ ∀ entry ∈ m.entries, fitsKey entry.1 ∧ fits entry.2)
      id := by
  apply (ReadsBack.list hcount (hkey.seq hf)).via (fun _ hm => hm)
  intro m
  have hsame : m.entries.map (fun entry : κ × α => (id entry.1, id entry.2)) = m.entries :=
    List.map_id m.entries
  rw [hsame]
  exact m.ofList_entries

end Counted

/-! ## Numbers of a width -/

theorem readsBack_varint16 : (varint ⟨16⟩).ReadsBack (· < 65536) id := by
  have hcapacity : capacity (Width.maxLast ⟨16⟩) 2 = 65536 := by decide
  rw [← hcapacity]
  exact readsBack_varint rfl (by decide)

theorem readsBack_word16 : word16.ReadsBack (fun _ => True) id := by
  apply readsBack_varint16.via
  · intro v _
    exact v.toNat_lt
  · intro v
    exact UInt16.ofNat_toNat

theorem readsBack_varint32 : (varint ⟨32⟩).ReadsBack (· < 4294967296) id := by
  have hcapacity : capacity (Width.maxLast ⟨32⟩) 4 = 4294967296 := by decide
  rw [← hcapacity]
  exact readsBack_varint rfl (by decide)

theorem readsBack_word32 : word32.ReadsBack (fun _ => True) id := by
  apply readsBack_varint32.via
  · intro v _
    exact v.toNat_lt
  · intro v
    exact UInt32.ofNat_toNat

/-- The sizes, addresses and counts that can be written are those of sixty-four bits. -/
theorem readsBack_count : count.ReadsBack (· < 18446744073709551616) id := by
  have hcapacity : capacity (Width.maxLast ⟨64⟩) 9 = 18446744073709551616 := by decide
  rw [← hcapacity]
  exact readsBack_varint rfl (by decide)

theorem fold_lt (value : Int32) : fold value < 4294967296 := by
  have hlow := value.le_toInt
  have hhigh := value.toInt_lt
  rw [fold]
  split <;> omega

/-- Folding loses nothing, the least number included. -/
theorem unfold_fold (value : Int32) : unfold (fold value) = value := by
  rw [fold]
  split
  · rename_i hsign
    have heven : (2 * value.toInt).toNat % 2 = 0 := by omega
    have hhalf : (((2 * value.toInt).toNat / 2 : Nat) : Int) = value.toInt := by omega
    rw [unfold, if_pos heven, hhalf, Int32.ofInt_toInt]
  · rename_i hsign
    have hodd : ¬(-2 * value.toInt - 1).toNat % 2 = 0 := by omega
    have hhalf : -(((-2 * value.toInt - 1).toNat / 2 : Nat) : Int) - 1 = value.toInt := by omega
    rw [unfold, if_neg hodd, hhalf, Int32.ofInt_toInt]

theorem readsBack_signed32 : signed32.ReadsBack (fun _ => True) id := by
  apply readsBack_varint32.via
  · intro v _
    exact fold_lt v
  · intro v
    exact unfold_fold v

end Format

end Wire

end BytecodeDebugger
