import Mathlib.Data.Rat.Cast.Order
import Mathlib.Tactic.FieldSimp

/-!
# Decimal Numerals

Texts of decimal digits, and numerals with a fraction. The value of digits is that of
`Nat.ofDigitChars`; padding with zeros on either side changes it as positional notation says. A
numeral has a value in `ℚ`, and is a whole number of units of its last decimal place.

## Main results

* `value_padRight`, `value_padLeft`: the two paddings.
* `Numeral.value_mul_pow`: a numeral in units of some decimal place that its fraction reaches.
-/

namespace Decimal

/-- Only the digits `0` to `9`. -/
def Digits (cs : List Char) : Prop := ∀ c ∈ cs, c.isDigit = true

instance (cs : List Char) : Decidable (Digits cs) :=
  List.decidableBAll (fun c : Char => c.isDigit = true) cs

/-- The number that some digits are. -/
def value (cs : List Char) : ℕ := Nat.ofDigitChars 10 cs 0

variable {cs ds : List Char}

/-- Two texts of digits, one behind the other. -/
theorem digits_append_iff : Digits (cs ++ ds) ↔ Digits cs ∧ Digits ds := List.forall_mem_append

/-- Zeros are digits. -/
theorem digits_replicate_zero (n : ℕ) : Digits (List.replicate n '0') := by
  intro c hc
  rw [List.eq_of_mem_replicate hc]
  rfl

/-- A digit is not another character. -/
theorem Digits.not_mem (hcs : Digits cs) {c : Char} (hc : c.isDigit = false) : c ∉ cs := by
  intro h
  rw [hcs c h] at hc
  cases hc

/-- The digits behind shift the ones before. -/
theorem value_append (cs ds : List Char) :
    value (cs ++ ds) = value cs * 10 ^ ds.length + value ds := by
  rw [value, Nat.ofDigitChars_append, Nat.ofDigitChars_eq_ofDigitChars_zero, Nat.mul_comm]
  rfl

/-- Zeros are worth nothing. -/
theorem value_replicate_zero (n : ℕ) : value (List.replicate n '0') = 0 := by
  rw [value, Nat.ofDigitChars_replicate_zero, Nat.mul_zero]

/-- Zeros behind digits. -/
theorem value_padRight (cs : List Char) (n : ℕ) :
    value (cs ++ List.replicate n '0') = value cs * 10 ^ n := by
  rw [value_append, value_replicate_zero, List.length_replicate, Nat.add_zero]

/-- Zeros in front of digits. -/
theorem value_padLeft (n : ℕ) (cs : List Char) :
    value (List.replicate n '0' ++ cs) = value cs := by
  rw [value_append, value_replicate_zero, Nat.zero_mul, Nat.zero_add]

/-- One digit is at most nine. -/
theorem value_singleton_le {c : Char} (hc : c.isDigit = true) : value [c] ≤ 9 := by
  have hnine : c.toNat ≤ 57 := (Char.isDigit_iff_toNat.mp hc).2
  have hvalue : value [c] = 10 * 0 + (c.toNat - 48) := rfl
  omega

/-- Digits are below the power of their number. -/
theorem value_lt (hcs : Digits cs) : value cs < 10 ^ cs.length := by
  induction cs with
  | nil => exact Nat.one_pos
  | cons c cs ih =>
      obtain ⟨hfront, hrest⟩ := List.forall_mem_cons.mp hcs
      have hlt := ih hrest
      have hsplit : value (c :: cs) = value [c] * 10 ^ cs.length + value cs :=
        value_append [c] cs
      have hhead : value [c] * 10 ^ cs.length ≤ 9 * 10 ^ cs.length :=
        Nat.mul_le_mul_right _ (value_singleton_le hfront)
      rw [hsplit, List.length_cons, Nat.pow_succ]
      omega

/-! ### Printing -/

/-- A number is written in digits. -/
theorem digits_toDigits (n : ℕ) : Digits (Nat.toDigits 10 n) :=
  fun _ hc => Nat.isDigit_of_mem_toDigits (by omega) le_rfl hc

/-- The digits of a number are worth the number. -/
theorem value_toDigits (n : ℕ) : value (Nat.toDigits 10 n) = n := Nat.ofDigitChars_ten_toDigits

/-! ### Numerals -/

/-- A decimal numeral: its digits, and those behind the dot if it has one. -/
structure Numeral where
  whole : List Char
  fraction : Option (List Char)
  whole_ne_nil : whole ≠ []
  whole_digits : Digits whole
  fraction_digits : ∀ f ∈ fraction, Digits f

/-- How the numeral is written. -/
def Numeral.text (m : Numeral) : List Char :=
  m.whole ++ match m.fraction with
    | none => []
    | some f => '.' :: f

/-- The digits behind the dot. -/
def Numeral.decimals (m : Numeral) : List Char := m.fraction.getD []

/-- The number that the numeral is. -/
def Numeral.value (m : Numeral) : ℚ :=
  Decimal.value m.whole + Decimal.value m.decimals / 10 ^ m.decimals.length

/-- **In units of a decimal place** that the fraction does not go beyond, a numeral is whole. -/
theorem Numeral.value_mul_pow (m : Numeral) {places : ℕ} (hplaces : m.decimals.length ≤ places) :
    m.value * 10 ^ places =
      ((Decimal.value m.whole * 10 ^ places +
        Decimal.value m.decimals * 10 ^ (places - m.decimals.length) : ℕ) : ℚ) := by
  have hpow : (10 : ℚ) ^ places = 10 ^ m.decimals.length * 10 ^ (places - m.decimals.length) := by
    rw [← pow_add, Nat.add_sub_cancel' hplaces]
  rw [Numeral.value, add_mul]
  push_cast
  rw [hpow]
  field_simp

end Decimal
