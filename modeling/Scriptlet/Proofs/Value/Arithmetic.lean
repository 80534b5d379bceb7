import Mathlib.Data.Int.ModEq
import Mathlib.Data.Rat.Floor
import Mathlib.Tactic.Linarith
import Scriptlet.Value.Operation

/-!
# Arithmetic of 64 bits

Wrapping takes every integer to the one of 64 bits in its class modulo 2^64 (`wrap_eq_iff`), so it
may be left out of the operands of sums, differences, products and negations. Division goes toward
zero and the remainder takes what is left. Only the quotient of the least integer by minus one does
not fit and is wrapped, and the laws that tie the two together hold for it as well
(`division_laws`).
-/

namespace Scriptlet

namespace Integer

/-- The integer lies between the least and the greatest one. -/
def InRange (value : Int) : Prop :=
  least ≤ value ∧ value ≤ greatest

instance (value : Int) : Decidable (InRange value) :=
  inferInstanceAs (Decidable (_ ∧ _))

/-- Sizes that are small enough are in range. -/
theorem inRange_natCast {value : Nat} (h : (value : Int) ≤ greatest) : InRange value := by
  refine ⟨?_, h⟩
  unfold least
  omega

section Wrapping

variable {value result left right : Int}

/-- Wrapping gives the only integer of 64 bits that is congruent to the given one. -/
theorem wrap_eq_iff : wrap value = result ↔ InRange result ∧ result ≡ value [ZMOD 2 ^ 64] := by
  rw [wrap, Int.bmod_eq_iff (by decide), Int.modEq_iff_dvd, dvd_sub_comm]
  unfold InRange least greatest
  omega

/-- A wrapped integer is in range. -/
theorem inRange_wrap (value : Int) : InRange (wrap value) :=
  (wrap_eq_iff.1 rfl).1

/-- A wrapped integer is congruent to the integer. -/
theorem wrap_modEq (value : Int) : wrap value ≡ value [ZMOD 2 ^ 64] :=
  (wrap_eq_iff.1 rfl).2

/-- Integers in range are not changed by wrapping. -/
theorem wrap_of_inRange (h : InRange value) : wrap value = value :=
  wrap_eq_iff.2 ⟨h, .refl value⟩

/-- Congruent integers wrap to the same one. -/
theorem wrap_congr (h : left ≡ right [ZMOD 2 ^ 64]) : wrap left = wrap right :=
  wrap_eq_iff.2 ⟨inRange_wrap right, (wrap_modEq right).trans h.symm⟩

/-- A wrapped operand may be negated. -/
theorem wrap_neg_wrap : wrap (-wrap value) = wrap (-value) :=
  wrap_congr (wrap_modEq value).neg

/-- Wrapped operands may be added. -/
theorem wrap_add_wrap : wrap (wrap left + wrap right) = wrap (left + right) :=
  wrap_congr ((wrap_modEq left).add (wrap_modEq right))

theorem wrap_sub_wrap : wrap (wrap left - wrap right) = wrap (left - right) :=
  wrap_congr ((wrap_modEq left).sub (wrap_modEq right))

theorem wrap_mul_wrap : wrap (wrap left * wrap right) = wrap (left * right) :=
  wrap_congr ((wrap_modEq left).mul (wrap_modEq right))

end Wrapping

section Division

variable {left right : Int}

/-- A fraction without what lies behind its point, on either side of zero. -/
def truncate (exact : ℚ) : Int :=
  if 0 ≤ exact then ⌊exact⌋ else ⌈exact⌉

/-- Truncation is towards zero from both sides. -/
theorem truncate_neg (exact : ℚ) : truncate (-exact) = -truncate exact := by
  rcases lt_trichotomy exact 0 with hneg | hzero | hpos
  · rw [truncate, if_pos (by linarith), truncate, if_neg (by linarith), Int.floor_neg]
  · simp [hzero, truncate]
  · rw [truncate, if_neg (by linarith), truncate, if_pos hpos.le, Int.ceil_neg]

/-- Truncation of a quotient of sizes is their division. -/
theorem truncate_natCast_div (dividend divisor : Nat) :
    truncate ((dividend : ℚ) / divisor) = ((dividend / divisor : Nat) : Int) := by
  rw [truncate, if_pos (by positivity)]
  have hfloor := Rat.floor_intCast_div_natCast dividend divisor
  rw [Int.cast_natCast] at hfloor
  rw [hfloor, Int.natCast_ediv]

/-- Division of integers is the fraction without what lies behind its point. -/
theorem truncate_div (left right : Int) : truncate ((left : ℚ) / right) = left.tdiv right := by
  -- Signs come out of both sides, so that two natural numbers are left.
  obtain ⟨dividend, rfl | rfl⟩ := left.eq_nat_or_neg <;>
  obtain ⟨divisor, rfl | rfl⟩ := right.eq_nat_or_neg <;>
  simp only [Int.cast_neg, Int.cast_natCast, neg_div, div_neg, truncate_neg, Int.neg_tdiv,
    Int.tdiv_neg, truncate_natCast_div, Int.ofNat_tdiv]

/-- Every integer in range but the least one can be negated. -/
theorem inRange_neg (h : InRange left) (hleast : left ≠ least) : InRange (-left) := by
  unfold InRange least greatest at *
  omega

/-- The only quotient out of range is that of the least integer by minus one. -/
theorem inRange_tdiv (h : InRange left) (hcorner : ¬ (left = least ∧ right = -1)) :
    InRange (left.tdiv right) := by
  unfold InRange least greatest at *
  have hsize : (left.tdiv right).natAbs = left.natAbs / right.natAbs := Int.natAbs_tdiv ..
  by_cases hright : 2 ≤ right.natAbs
  · have hhalf : left.natAbs / right.natAbs ≤ left.natAbs / 2 :=
      Nat.div_le_div_left hright Nat.two_pos
    omega
  · obtain rfl | rfl | rfl : right = 0 ∨ right = 1 ∨ right = -1 := by omega
    · simp
    · rwa [Int.tdiv_one]
    · rw [Int.tdiv_neg, Int.tdiv_one]
      omega

/-- A remainder is smaller than the divisor. -/
theorem natAbs_tmod_lt (left : Int) (h : right ≠ 0) : (left.tmod right).natAbs < right.natAbs := by
  rw [Int.natAbs_tmod]
  exact Nat.mod_lt _ (Int.natAbs_pos.2 h)

theorem inRange_tmod (left : Int) (h : InRange right) (hright : right ≠ 0) :
    InRange (left.tmod right) := by
  have hless := natAbs_tmod_lt left hright
  unfold InRange least greatest at *
  omega

end Division

end Integer

namespace Value

open Integer

/-- An arithmetic operator between integers does its operation. -/
theorem binary_arithmetic {operator : String} {operation : Arithmetic}
    (h : Arithmetic.ofText? operator = some operation) (left right : Int) :
    binary operator (.integer left) (.integer right) =
      match operation.result? left right with
      | some value => .ok (.integer value)
      | none => .error .divisionByZero := by
  have hequal : operator ≠ "==" := by
    intro hoperator
    subst hoperator
    cases h
  have hdiffer : operator ≠ "!=" := by
    intro hoperator
    subst hoperator
    cases h
  rw [binary, if_neg hequal, if_neg hdiffer]
  show integerBinary operator left right = _
  cases hvalue : operation.result? left right with
  | some value => simp only [integerBinary, h, hvalue]
  | none => simp only [integerBinary, h, hvalue]

section Division

variable {left right : Int}

/-- Division of integers rounds towards zero and wraps. -/
theorem binary_quotient (h : right ≠ 0) :
    binary "/" (.integer left) (.integer right) = .ok (.integer (wrap (left.tdiv right))) := by
  rw [binary_arithmetic rfl]
  unfold Arithmetic.result?
  simp only [if_neg h]

/-- The remainder of integers has the sign of the dividend. -/
theorem binary_remainder (h : right ≠ 0) :
    binary "%" (.integer left) (.integer right) = .ok (.integer (wrap (left.tmod right))) := by
  rw [binary_arithmetic rfl]
  unfold Arithmetic.result?
  simp only [if_neg h]

/-- An arithmetic operator fails only as a division by zero. -/
theorem binary_eq_error_iff {operator : String} {operation : Arithmetic} {fault : Fault}
    (h : Arithmetic.ofText? operator = some operation) :
    binary operator (.integer left) (.integer right) = .error fault ↔
      operation ∈ [.div, .rem] ∧ right = 0 ∧ fault = .divisionByZero := by
  rw [binary_arithmetic h]
  unfold Arithmetic.result?
  cases operation with
  | add | sub | mul => simp
  | div | rem =>
      by_cases hright : right = 0
      · simp [hright, eq_comm]
      · simp [hright]

/-- The product of the quotient and the divisor, wrapped as it may be, lacks the remainder. -/
theorem wrap_mul_add_remainder (h : InRange left) :
    wrap (wrap (wrap (left.tdiv right) * right) + wrap (left.tmod right)) = left := by
  refine wrap_eq_iff.2 ⟨h, Int.ModEq.symm ?_⟩
  calc wrap (wrap (left.tdiv right) * right) + wrap (left.tmod right)
      ≡ wrap (left.tdiv right) * right + left.tmod right [ZMOD 2 ^ 64] :=
        (wrap_modEq _).add (wrap_modEq _)
    _ ≡ left.tdiv right * right + left.tmod right [ZMOD 2 ^ 64] :=
        ((wrap_modEq _).mul_right right).add_right _
    _ = left := Int.tdiv_mul_add_tmod left right

end Division

end Value

open Value Integer

/-- Division and remainder of integers of 64 bits. Both fail exactly for the divisor zero. Otherwise
quotient times divisor plus remainder, computed with wrapping, is the dividend; the remainder is
smaller than the divisor and has the sign of the dividend unless it is zero; the quotient is the
fraction without what lies behind its point, but for the least integer divided by minus one; and a
negation of the dividend or of the divisor that fits negates the quotient. -/
theorem division_laws (left right : Int) (hleft : InRange left) (hright : InRange right) :
    (∀ fault, binary "/" (.integer left) (.integer right) = .error fault ↔
      right = 0 ∧ fault = .divisionByZero) ∧
    (∀ fault, binary "%" (.integer left) (.integer right) = .error fault ↔
      right = 0 ∧ fault = .divisionByZero) ∧
    Fault.divisionByZero.message = "division by zero" ∧
    (right ≠ 0 → ∃ quotient remainder,
      binary "/" (.integer left) (.integer right) = .ok (.integer quotient) ∧
      binary "%" (.integer left) (.integer right) = .ok (.integer remainder) ∧
      (do
        let product ← binary "*" (.integer quotient) (.integer right)
        binary "+" product (.integer remainder)) = .ok (.integer left) ∧
      |remainder| < |right| ∧
      (remainder = 0 ∨ remainder.sign = left.sign) ∧
      (¬ (left = least ∧ right = -1) → quotient = truncate ((left : ℚ) / right)) ∧
      (left = least ∧ right = -1 → quotient = least ∧ remainder = 0) ∧
      (left ≠ least →
        (do
          let negated ← unary "-" (.integer left)
          binary "/" negated (.integer right)) = unary "-" (.integer quotient)) ∧
      (right ≠ least →
        (do
          let negated ← unary "-" (.integer right)
          binary "/" (.integer left) negated) = unary "-" (.integer quotient))) := by
  refine ⟨?_, ?_, rfl, fun hzero => ?_⟩
  · intro fault
    rw [binary_eq_error_iff (show Arithmetic.ofText? "/" = some .div from rfl)]
    simp
  · intro fault
    rw [binary_eq_error_iff (show Arithmetic.ofText? "%" = some .rem from rfl)]
    simp
  have hremainder : wrap (left.tmod right) = left.tmod right :=
    wrap_of_inRange (inRange_tmod left hright hzero)
  refine ⟨wrap (left.tdiv right), wrap (left.tmod right), binary_quotient hzero,
    binary_remainder hzero, ?_, ?_, ?_, ?_, ?_, ?_, ?_⟩
  · exact congrArg (fun value => Except.ok (Value.integer value)) (wrap_mul_add_remainder hleft)
  · rw [hremainder, Int.abs_eq_natAbs, Int.abs_eq_natAbs]
    exact_mod_cast natAbs_tmod_lt left hzero
  · rw [hremainder, Int.sign_tmod]
    split
    · next hdvd => exact .inl (Int.tmod_eq_zero_of_dvd hdvd)
    · exact .inr rfl
  · intro hcorner
    rw [truncate_div, wrap_of_inRange (inRange_tdiv hleft hcorner)]
  · rintro ⟨rfl, rfl⟩
    decide
  · intro hleast
    have hnegated : wrap (-left) = -left := wrap_of_inRange (inRange_neg hleft hleast)
    show binary "/" (.integer (wrap (-left))) (.integer right) =
      .ok (.integer (wrap (-wrap (left.tdiv right))))
    rw [hnegated, binary_quotient hzero, Int.neg_tdiv, wrap_neg_wrap]
  · intro hleast
    have hnegated : wrap (-right) = -right := wrap_of_inRange (inRange_neg hright hleast)
    show binary "/" (.integer left) (.integer (wrap (-right))) =
      .ok (.integer (wrap (-wrap (left.tdiv right))))
    rw [hnegated, binary_quotient (neg_ne_zero.2 hzero), Int.tdiv_neg, wrap_neg_wrap]

/-- The least integer divided by minus one. -/
theorem division_laws_least :
    InRange least ∧ InRange (-1) ∧ ∃ quotient remainder,
      binary "/" (.integer least) (.integer (-1)) = .ok (.integer quotient) ∧
      quotient = least ∧ remainder = 0 ∧
      (do
        let product ← binary "*" (.integer quotient) (.integer (-1))
        binary "+" product (.integer remainder)) = .ok (.integer least) := by
  have hleast : InRange least := by decide
  have hminus : InRange (-1) := by decide
  obtain ⟨-, -, -, hlaws⟩ := division_laws least (-1) hleast hminus
  obtain ⟨quotient, remainder, hquotient, -, hsum, -, -, -, hcorner, -, -⟩ := hlaws (by decide)
  obtain ⟨hsame, hnone⟩ := hcorner ⟨rfl, rfl⟩
  exact ⟨hleast, hminus, quotient, remainder, hquotient, hsame, hnone, hsum⟩

end Scriptlet
