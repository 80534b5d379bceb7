/-!
# A numeral tells the number

The digits of a natural number can be read back (`Nat.ofDigitChars_ten_toDigits`), and the sign of a
negative one is no digit, so different integers have different numerals.
-/

namespace Scriptlet

/-- Nothing but digits stands in the numeral of a natural number. -/
theorem notMem_toString {char : Char} (h : char.isDigit = false) (value : Nat) :
    char ∉ (toString value).toList := by
  rw [Nat.toString_eq_ofList_toDigits, String.toList_ofList]
  intro hmem
  have hdigit := Nat.isDigit_of_mem_toDigits (by omega) (by omega) hmem
  rw [h] at hdigit
  cases hdigit

/-- Different natural numbers have different numerals. -/
theorem toString_nat_injective {first second : Nat} (h : toString first = toString second) :
    first = second := by
  rw [Nat.toString_eq_ofList_toDigits, Nat.toString_eq_ofList_toDigits] at h
  rw [← Nat.ofDigitChars_ten_toDigits (n := first), String.ofList_injective h,
    Nat.ofDigitChars_ten_toDigits]

/-- The numeral of an integer is that of its size, behind a sign if the integer is negative. -/
theorem toString_int (value : Int) : toString value =
    if 0 ≤ value then toString value.toNat else "-" ++ toString (-value).toNat := by
  rw [Int.toString_eq_repr, Int.repr_eq_if]
  rfl

/-- No natural number has the numeral of a negative one. -/
theorem toString_ne_sign_append (value : Nat) (text : String) :
    toString value ≠ "-" ++ text := by
  have hsign : '-' ∉ (toString value).toList := notMem_toString rfl value
  intro h
  rw [h, String.toList_append] at hsign
  exact hsign (List.mem_append_left _ (List.mem_singleton.2 rfl))

/-- Different integers have different numerals. -/
theorem toString_int_injective {first second : Int} (h : toString first = toString second) :
    first = second := by
  rw [toString_int, toString_int] at h
  split at h <;> split at h
  · have hsize := toString_nat_injective h
    omega
  · exact absurd h (toString_ne_sign_append _ _)
  · exact absurd h.symm (toString_ne_sign_append _ _)
  · have hsize := toString_nat_injective ((String.append_right_inj _).1 h)
    omega

end Scriptlet
