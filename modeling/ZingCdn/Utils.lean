import Mathlib.Tactic.Linarith
import Mathlib.Tactic.Ring
import ZingCdn.MoveRuntime

/-!
# `zing_cdn::utils`

Multiplication followed by division, with `u128` intermediates. `u128MulDiv` divides the
larger operand first and adds the contribution of the remainder, which is exactly the
quotient of the unbounded product (`div_mul_add_mod_mul_div`); for `u64` operands no
intermediate exceeds the product, so `mulDiv` aborts only on a zero divisor or on a
quotient beyond `u64` (`mulDiv_eq`).

## Main results

* `mul_div_exact`: what `u128MulDiv` returns is the exact quotient, it returns one when the
  product is a `u128`, and `mulDiv` returns it exactly when it is a `u64`.
-/

namespace ZingCdn

/-- Computes `a * b / c` with `u128` intermediates, dividing the larger operand before
multiplying. -/
def u128MulDiv (a b c : ℕ) : Except Abort ℕ := do
  let big := if b ≤ a then a else b
  let small := if b ≤ a then b else a
  require (0 < c) 101
  let high ← checked u128Max (big / c * small)
  let low ← checked u128Max (big % c * small)
  checked u128Max (high + low / c)

/-- Computes `a * b / c`; aborts on a zero divisor or a result beyond `u64`. -/
def mulDiv (a b c : ℕ) : Except Abort ℕ := do
  let r ← u128MulDiv a b c
  require (r ≤ u64Max) 101
  pure r

/-- Dividing first loses nothing once the remainder's share is added back. -/
theorem div_mul_add_mod_mul_div (a b : ℕ) {c : ℕ} (hc : 0 < c) :
    a / c * b + a % c * b / c = a * b / c := by
  have hsplit : a * b = a % c * b + a / c * b * c := by
    conv_lhs => rw [← Nat.mod_add_div a c]
    ring
  rw [hsplit, Nat.add_mul_div_right _ _ hc, Nat.add_comm]

/-- The two intermediates of `u128MulDiv` are each at most the product. -/
theorem mulDiv_intermediates_le (a b c : ℕ) :
    a / c * b ≤ a * b ∧ a % c * b ≤ a * b :=
  ⟨Nat.mul_le_mul_right b (Nat.div_le_self a c), Nat.mul_le_mul_right b (Nat.mod_le a c)⟩

/-- A part of a whole gets at most everything. -/
theorem mul_div_le_of_le {a b c : ℕ} (h : a ≤ c) : a * b / c ≤ b :=
  Nat.div_le_of_le_mul (Nat.mul_le_mul_right b h)

/-- When the product fits in `u128`, `u128MulDiv` is the exact quotient. -/
theorem u128MulDiv_of_le {a b c : ℕ} (hc : 0 < c) (hab : a * b ≤ u128Max) :
    u128MulDiv a b c = .ok (a * b / c) := by
  have hcore : ∀ x y : ℕ, x * y ≤ u128Max →
      (checked u128Max (x / c * y) >>= fun high => checked u128Max (x % c * y) >>= fun low =>
        checked u128Max (high + low / c)) = .ok (x * y / c) := by
    intro x y hxy
    obtain ⟨h₁, h₂⟩ := mulDiv_intermediates_le x y c
    rw [checked_of_le (h₁.trans hxy), bind_ok, checked_of_le (h₂.trans hxy), bind_ok,
      div_mul_add_mod_mul_div x y hc, checked_of_le ((Nat.div_le_self _ _).trans hxy)]
  by_cases hba : b ≤ a
  · simpa only [u128MulDiv, if_pos hba, require_of hc, bind_ok] using hcore a b hab
  · rw [Nat.mul_comm a b]
    simpa only [u128MulDiv, if_neg hba, require_of hc, bind_ok] using
      hcore b a (by rwa [Nat.mul_comm])

/-- Whatever `u128MulDiv` returns is the exact quotient. -/
theorem eq_of_u128MulDiv {a b c r : ℕ} (h : u128MulDiv a b c = .ok r) :
    0 < c ∧ r = a * b / c := by
  simp only [u128MulDiv, bind_eq_ok_iff, require_eq_ok_iff, checked_eq_ok_iff] at h
  obtain ⟨_, hc, high, ⟨-, rfl⟩, low, ⟨-, rfl⟩, -, rfl⟩ := h
  refine ⟨hc, ?_⟩
  split
  · exact div_mul_add_mod_mul_div a b hc
  · rw [Nat.mul_comm a b]
    exact div_mul_add_mod_mul_div b a hc

/-- The product of two `u64` values fits in `u128`. -/
theorem mul_le_u128Max {a b : ℕ} (ha : a ≤ u64Max) (hb : b ≤ u64Max) : a * b ≤ u128Max :=
  (Nat.mul_le_mul ha hb).trans (by decide)

/-- **`mulDiv` on `u64` operands**: the exact quotient, or an abort when the divisor is
zero or the quotient is not a `u64`. -/
theorem mulDiv_eq {a b : ℕ} (ha : a ≤ u64Max) (hb : b ≤ u64Max) (c : ℕ) :
    mulDiv a b c =
      if 0 < c ∧ a * b / c ≤ u64Max then .ok (a * b / c) else .error (.code 101) := by
  rcases Nat.eq_zero_or_pos c with rfl | hc
  · have hcond : ¬(0 < 0 ∧ a * b / 0 ≤ u64Max) := fun h => lt_irrefl 0 h.1
    rw [if_neg hcond, mulDiv, u128MulDiv, require_of_not (lt_irrefl 0)]
    rfl
  · rw [mulDiv, u128MulDiv_of_le hc (mul_le_u128Max ha hb), bind_ok]
    by_cases hr : a * b / c ≤ u64Max
    · rw [require_of hr, bind_ok, if_pos ⟨hc, hr⟩, pure_eq_ok]
    · rw [require_of_not hr, bind_error, if_neg fun h => hr h.2]

/-- `mulDiv` returns the quotient whenever it is a `u64`. -/
theorem mulDiv_of_le {a b c : ℕ} (ha : a ≤ u64Max) (hb : b ≤ u64Max) (hc : 0 < c)
    (hr : a * b / c ≤ u64Max) : mulDiv a b c = .ok (a * b / c) := by
  rw [mulDiv_eq ha hb, if_pos ⟨hc, hr⟩]

/-- **The division is exact.** What `u128MulDiv` returns is the quotient of the unbounded
product, and it returns when the divisor is positive and the product is a `u128`; on `u64`
operands `mulDiv` returns that quotient exactly when the divisor is positive and the quotient
is a `u64`, and aborts otherwise. -/
theorem mul_div_exact (a b c : ℕ) :
    (∀ r, u128MulDiv a b c = .ok r → 0 < c ∧ r = a * b / c) ∧
      (0 < c → a * b ≤ u128Max → u128MulDiv a b c = .ok (a * b / c)) ∧
      (a ≤ u64Max → b ≤ u64Max → mulDiv a b c =
        if 0 < c ∧ a * b / c ≤ u64Max then .ok (a * b / c) else .error (.code 101)) :=
  ⟨fun _ => eq_of_u128MulDiv, u128MulDiv_of_le, fun ha hb => mulDiv_eq ha hb c⟩

/-- The largest operands: the product is far beyond `u64`, the quotient is not. -/
theorem mul_div_exact_largest : mulDiv u64Max u64Max u64Max = .ok u64Max :=
  ((mul_div_exact u64Max u64Max u64Max).2.2 le_rfl le_rfl).trans (by decide)

end ZingCdn
