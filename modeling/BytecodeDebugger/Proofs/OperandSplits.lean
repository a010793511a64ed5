import BytecodeDebugger.Machine.Operands

/-!
# Splitting operands off in words

A split counts with words, and the base and the number of operands to split off can be any two of
them. As long as their sum is a word, only the number of operands above the base matters: a split
fails if there are too few, and else moves the topmost ones. Where the sum is not a word, the process
is stopped.

## Implementation notes

Wrapping around does not save a split. The wrapped sum is below the size of the stack, so the split
is not found to fail, and the difference then wraps to a position beyond the end of the stack. This
takes a stack that fits into the memory of a process, and the operands of an addressable stack are
far fewer than there are words. A process that checks its sums needs no such bound.
-/

namespace BytecodeDebugger

namespace WordArithmetic

variable {a b : Nat}

theorem add_of_lt (arithmetic : WordArithmetic) (h : a + b < limit) :
    arithmetic.add a b = some (a + b) := by
  cases arithmetic with
  | checked => exact if_pos h
  | wrapping => exact congrArg some (Nat.mod_eq_of_lt h)

theorem sub_of_le {arithmetic : WordArithmetic} (hle : b ≤ a)
    (ha : arithmetic = .wrapping → a < limit) : arithmetic.sub a b = some (a - b) := by
  cases arithmetic with
  | checked => exact if_pos hle
  | wrapping =>
    have hmod : (a + (limit - b)) % limit = a - b := by
      have hlt := ha rfl
      unfold limit at *
      omega
    exact congrArg some hmod

end WordArithmetic

open WordArithmetic (limit)

namespace Operands

/-- The operands are in the memory of a process, four bytes each, of which no more than a signed word
can count. -/
def InMemory (s : Operands) : Prop :=
  4 * s.size < 0x8000000000000000

instance (s : Operands) : Decidable s.InMemory :=
  inferInstanceAs (Decidable (_ < _))

theorem InMemory.size_lt {s : Operands} (h : s.InMemory) : s.size < limit := by
  unfold InMemory limit at *
  omega

variable {arithmetic : WordArithmetic} {s rest : Operands} {base n : Nat} {args : Array Int32}

/-! ## Sums that are words -/

/-- With a word as the sum, a split depends on the number of operands above the base. Only
differences that wrap around need a bound on the stack. -/
theorem split_of_lt (hsum : base + n < limit) (hsize : arithmetic = .wrapping → s.size < limit) :
    s.split arithmetic base n = some (if s.size < base + n then .error .stackUnderflow
      else .ok (s.values.extract (s.size - n) s.size, ⟨s.values.shrink (s.size - n)⟩)) := by
  rw [split, arithmetic.add_of_lt hsum, ← size]
  by_cases h : s.size < base + n
  · simp only [h, if_true]
  · have hle : n ≤ s.size := by omega
    simp only [h, if_false, WordArithmetic.sub_of_le hle hsize, Nat.sub_le, if_true]

theorem split_checked_of_lt (hsum : base + n < limit) :
    s.split .checked base n = some (if s.size < base + n then .error .stackUnderflow
      else .ok (s.values.extract (s.size - n) s.size, ⟨s.values.shrink (s.size - n)⟩)) :=
  split_of_lt hsum fun hwrapping => by cases hwrapping

/-- Too few operands above the base. -/
theorem split_of_few (hsum : base + n < limit) (hsize : arithmetic = .wrapping → s.size < limit)
    (hbase : base ≤ s.size) (h : s.size - base < n) :
    s.split arithmetic base n = some (.error .stackUnderflow) := by
  rw [split_of_lt hsum hsize, if_pos (by omega)]

/-- The operands on top of others are split off whole. -/
theorem split_append {below : Array Int32} (hbase : base ≤ below.size)
    (hsum : base + args.size < limit)
    (hsize : arithmetic = .wrapping → below.size + args.size < limit) :
    (⟨below ++ args⟩ : Operands).split arithmetic base args.size = some (.ok (args, ⟨below⟩)) := by
  have hwhole : (⟨below ++ args⟩ : Operands).size = below.size + args.size := Array.size_append
  have hargs : (below ++ args).extract below.size (below.size + args.size) = args := by
    rw [Array.extract_append_right, Array.extract_size]
  have hrest : (below ++ args).shrink below.size = below := by
    rw [Array.shrink_eq_take, Array.take_eq_extract, Array.extract_append_left, Array.extract_size]
  rw [split_of_lt hsum (by rwa [hwhole]), if_neg (by omega)]
  simp only [hwhole, Nat.add_sub_cancel, hargs, hrest]

/-- With enough operands above the base, the topmost ones are split off. -/
theorem split_of_enough (hsum : base + n < limit) (hsize : arithmetic = .wrapping → s.size < limit)
    (hbase : base ≤ s.size) (h : n ≤ s.size - base) :
    ∃ args rest, s.values = rest ++ args ∧ args.size = n ∧ base ≤ rest.size ∧
      s.split arithmetic base n = some (.ok (args, ⟨rest⟩)) := by
  let rest := s.values.extract 0 (s.size - n)
  let args := s.values.extract (s.size - n) s.size
  have hvalues : s.values = rest ++ args := by
    rw [Array.extract_append_extract]
    simp [size]
  have hargs : args.size = n := by
    simp only [args, Array.size_extract]
    unfold size at *
    omega
  have hrest : rest.size = s.size - n := by
    simp only [rest, Array.size_extract]
    unfold size at *
    omega
  have hsplit : (⟨rest ++ args⟩ : Operands).split arithmetic base args.size =
      some (.ok (args, ⟨rest⟩)) :=
    split_append (by omega) (by omega) fun hwrapping => by have hlt := hsize hwrapping; omega
  rw [← hvalues, hargs] at hsplit
  exact ⟨args, rest, hvalues, hargs, by omega, hsplit⟩

/-! ## Sums that are not words -/

/-- A process that checks its sums is stopped. -/
theorem split_checked_of_le (hsum : limit ≤ base + n) : s.split .checked base n = none := by
  have hadd : WordArithmetic.checked.add base n = none := if_neg (Nat.not_lt.mpr hsum)
  rw [split, hadd]

/-- Without a word as the sum, every process is stopped. -/
theorem split_of_le (arithmetic : WordArithmetic) (hsum : limit ≤ base + n)
    (hbase : base ≤ s.size) (hn : n < limit) (hmemory : s.InMemory) :
    s.split arithmetic base n = none := by
  cases arithmetic with
  | checked => exact split_checked_of_le hsum
  | wrapping =>
    -- The wrapped sum is below the base, and there is no such position as the wrapped difference.
    have henough : ¬s.values.size < (base + n) % limit := by
      unfold InMemory size limit at *
      omega
    have hbeyond : ¬(s.values.size + (limit - n)) % limit ≤ s.values.size := by
      unfold InMemory size limit at *
      omega
    simp only [split, WordArithmetic.add, WordArithmetic.sub, henough, hbeyond, if_false]

/-- What a process that checks its sums splits off lies above the base. -/
theorem base_le_size_of_split (h : s.split .checked base n = some (.ok (args, rest))) :
    base + n ≤ s.size ∧ base ≤ rest.size := by
  rcases Nat.lt_or_ge (base + n) limit with hsum | hsum
  · rw [split_checked_of_lt hsum] at h
    split at h
    · cases h
    · cases h
      refine ⟨by omega, ?_⟩
      simp only [size, Array.size_shrink]
      unfold size at *
      omega
  · rw [split_checked_of_le hsum] at h
    cases h

end Operands

end BytecodeDebugger
