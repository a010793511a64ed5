import BytecodeDebugger.Machine.Execute

/-!
# Division on the operand stack

Quotient and remainder of two operands belong together: multiplied and added again by the machine's
own instructions they give the dividend, for every dividend and every divisor but zero. The quotient
is rounded toward zero, so the remainder is smaller than the divisor and has the sign of the dividend.
A divisor of zero fails, and nothing else does. What lies below the operands is not touched.

## Implementation notes

There is one quotient that is not a word, that of the least word by -1. It wraps around to the
dividend, its product with the divisor wraps around once more, and so the remainder of zero still
fits. Everywhere else the equation holds for the integers as well.
-/

namespace BytecodeDebugger

namespace Operands

/-- What was pushed above the base is popped, and the stack is as before. -/
theorem pop_push {s : Operands} {base : Nat} (hbase : base ≤ s.size) (value : Int32) :
    (s.push value).pop base = .ok (value, s) := by
  have habove : base < (s.values.push value).size := by
    rw [Array.size_push]
    exact Nat.lt_succ_of_le hbase
  rw [pop, push, dif_pos habove]
  simp [Array.back]

end Operands

namespace Execute

/-! ## Quotients and remainders -/

/-- The equation of division holds modulo the word size, whatever the divisor. -/
theorem quotient_mul_add_remainder (a b : Int32) : a / b * b + a % b = a := by
  apply Int32.toInt_inj.mp
  calc
    (a / b * b + a % b).toInt
        = ((a.toInt.tdiv b.toInt).bmod (2 ^ 32) * b.toInt + a.toInt.tmod b.toInt).bmod (2 ^ 32) := by
      rw [Int32.toInt_add, Int32.toInt_mul, Int32.toInt_div, Int32.toInt_mod, Int.bmod_add_bmod]
    _ = (a.toInt.tdiv b.toInt * b.toInt + a.toInt.tmod b.toInt).bmod (2 ^ 32) := by
      rw [← Int.bmod_add_bmod, Int.bmod_mul_bmod, Int.bmod_add_bmod]
    _ = a.toInt := by
      rw [Int.tdiv_mul_add_tmod]
      exact Int32.toInt_bmod a

theorem natAbs_remainder_lt (a : Int32) {b : Int32} (hb : b ≠ 0) :
    (a % b).toInt.natAbs < b.toInt.natAbs := by
  have hpositive : 0 < b.toInt.natAbs := Int.natAbs_pos.mpr fun h => hb (Int32.toInt_inj.mp h)
  rw [Int32.toInt_mod, Int.natAbs_tmod]
  exact Nat.mod_lt _ hpositive

theorem remainder_eq_zero_or_sign_eq (a b : Int32) :
    a % b = 0 ∨ (a % b).toInt.sign = a.toInt.sign := by
  have hsign := Int.sign_tmod a.toInt b.toInt
  rw [← Int32.toInt_mod] at hsign
  split at hsign
  · exact .inl (Int32.toInt_inj.mp (Int.sign_eq_zero_iff_zero.mp hsign))
  · exact .inr hsign

/-- Without wrapping around, quotient and remainder are those of the integers. -/
theorem quotient_mul_add_remainder_toInt {a b : Int32} (h : a ≠ Int32.minValue ∨ b ≠ -1) :
    (a / b).toInt * b.toInt + (a % b).toInt = a.toInt := by
  have hquotient : (a / b).toInt = a.toInt.tdiv b.toInt := by
    rcases h with ha | hb
    · exact Int32.toInt_div_of_ne_left a b ha
    · exact Int32.toInt_div_of_ne_right a b hb
  rw [hquotient, Int32.toInt_mod, Int.tdiv_mul_add_tmod]

/-! ## Instructions -/

/-- The effect of an instruction that leaves a value on a stack and moves on. -/
def leaving (frame : Frame) (stack : Operands) (value : Int32) : Effect :=
  ⟨.ok (.next (frame.pc + 1)), frame, stack.push value⟩

variable {frame : Frame} {stack : Operands}

/-- Two pushed operands give way to the value of a function of them, or are lost where it fails. -/
theorem binary_push_push (hbase : frame.stackBase ≤ stack.size)
    (f : Int32 → Int32 → Except Fault Int32) (a b : Int32) :
    binary f frame ((stack.push a).push b) =
      match f a b with
      | .error fault => ⟨.error fault, frame, stack⟩
      | .ok value => leaving frame stack value := by
  have hupper : frame.stackBase ≤ (stack.push a).size := by
    rw [Operands.size, Operands.push, Array.size_push]
    exact Nat.le_succ_of_le hbase
  simp only [binary, Operands.pop_push hupper, Operands.pop_push hbase]
  rfl

/-- A division loses its operands to a divisor of zero, and to no other. -/
theorem binary_division (hbase : frame.stackBase ≤ stack.size) (f : Int32 → Int32 → Int32)
    (a b : Int32) :
    binary (division f) frame ((stack.push a).push b) =
      if b = 0 then ⟨.error .divisionByZero, frame, stack⟩ else leaving frame stack (f a b) := by
  rw [binary_push_push hbase, division]
  by_cases hb : b = 0
  · simp only [if_pos hb]
  · simp only [if_neg hb]

theorem outcome_binary_division_iff (hbase : frame.stackBase ≤ stack.size)
    (f : Int32 → Int32 → Int32) (a b : Int32) :
    (binary (division f) frame ((stack.push a).push b)).outcome = .error .divisionByZero ↔
      b = 0 := by
  rw [binary_division hbase]
  by_cases hb : b = 0
  · simp [hb]
  · simp [hb, leaving]

/-- For any two operands, division and remainder fail exactly if the divisor is zero. Else they leave
a quotient and a remainder in place of the operands, which the instructions for multiplication and
addition make into the dividend again. The remainder is zero or has the sign of the dividend, and it
is smaller than the divisor. Only the quotient of the least word by -1 wraps around. -/
theorem division_recomposes {div mod mul add : Instruction} (hdiv : div.op = .div)
    (hmod : mod.op = .mod) (hmul : mul.op = .mul) (hadd : add.op = .add)
    (hbase : frame.stackBase ≤ stack.size) (a b : Int32) :
    let operands := (stack.push a).push b
    ((execute div frame operands).outcome = .error .divisionByZero ↔ b = 0) ∧
    ((execute mod frame operands).outcome = .error .divisionByZero ↔ b = 0) ∧
    (b = 0 → execute div frame operands = ⟨.error .divisionByZero, frame, stack⟩ ∧
      execute mod frame operands = ⟨.error .divisionByZero, frame, stack⟩) ∧
    (b ≠ 0 → ∃ q r product,
      execute div frame operands = leaving frame stack q ∧
      execute mod frame operands = leaving frame stack r ∧
      execute mul frame ((stack.push q).push b) = leaving frame stack product ∧
      execute add frame ((stack.push product).push r) = leaving frame stack a ∧
      (r = 0 ∨ r.toInt.sign = a.toInt.sign) ∧
      r.toInt.natAbs < b.toInt.natAbs ∧
      (a ≠ Int32.minValue ∨ b ≠ -1 → q.toInt * b.toInt + r.toInt = a.toInt) ∧
      (a = Int32.minValue → b = -1 → q = Int32.minValue ∧ r = 0)) := by
  intro operands
  have hquotient : execute div frame operands = binary (division (· / ·)) frame operands := by
    simp only [execute, hdiv]
  have hremainder : execute mod frame operands = binary (division (· % ·)) frame operands := by
    simp only [execute, hmod]
  rw [hquotient, hremainder]
  refine ⟨outcome_binary_division_iff hbase _ a b, outcome_binary_division_iff hbase _ a b,
    fun hb => ?_, fun hb => ?_⟩
  · exact ⟨(binary_division hbase _ a b).trans (if_pos hb),
      (binary_division hbase _ a b).trans (if_pos hb)⟩
  · have hproduct : execute mul frame ((stack.push (a / b)).push b) =
        leaving frame stack (a / b * b) := by
      simp only [execute, hmul, binary_push_push hbase]
    have hsum : execute add frame ((stack.push (a / b * b)).push (a % b)) =
        leaving frame stack a := by
      simp only [execute, hadd, binary_push_push hbase, quotient_mul_add_remainder]
    refine ⟨a / b, a % b, a / b * b, (binary_division hbase _ a b).trans (if_neg hb),
      (binary_division hbase _ a b).trans (if_neg hb), hproduct, hsum,
      remainder_eq_zero_or_sign_eq a b, natAbs_remainder_lt a hb,
      quotient_mul_add_remainder_toInt, ?_⟩
    rintro rfl rfl
    decide

/-- The least word by -1, above an operand of a caller. -/
theorem division_recomposes_least :
    let frame : Frame := ⟨0, 4, ⟨#[]⟩, 1⟩
    let stack : Operands := ⟨#[9]⟩
    let operands := (stack.push Int32.minValue).push (-1)
    frame.stackBase ≤ stack.size ∧
    execute { op := .div } frame operands = leaving frame stack Int32.minValue ∧
    execute { op := .mod } frame operands = leaving frame stack 0 ∧
    ∃ product, execute { op := .mul } frame operands = leaving frame stack product ∧
      execute { op := .add } frame ((stack.push product).push 0) =
        leaving frame stack Int32.minValue := by
  intro frame stack operands
  have hbase : frame.stackBase ≤ stack.size := Nat.le_refl 1
  obtain ⟨-, -, -, hdivides⟩ := division_recomposes
    (show Instruction.op { op := .div } = .div from rfl)
    (show Instruction.op { op := .mod } = .mod from rfl)
    (show Instruction.op { op := .mul } = .mul from rfl)
    (show Instruction.op { op := .add } = .add from rfl) hbase Int32.minValue (-1)
  obtain ⟨q, r, product, hdiv, hmod, hmul, hadd, -, -, -, hleast⟩ := hdivides (by decide)
  obtain ⟨rfl, rfl⟩ := hleast rfl rfl
  exact ⟨hbase, hdiv, hmod, product, hmul, hadd⟩

end Execute

end BytecodeDebugger
