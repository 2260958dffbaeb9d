import Mathlib.Algebra.BigOperators.Group.List.Basic
import Mathlib.Algebra.Order.Floor.Div
import Mathlib.Tactic.Ring

/-!
# Rounded Quotients

Quotients of natural numbers that are rounded down, one after the other or summed over a
list. A quotient that misses a whole number by `r / n` is that number less `r / n` rounded
up; and rounding the terms of a sum down one by one loses less than one unit a term.

## Main results

* `div_eq_sub_ceilDiv`: the quotient of what `r` is missing from.
* `sum_map_div_le`, `le_sum_map_div_add`: the sum of the quotients of a list against the
  quotient of its sum.
-/

namespace Rounding

variable {x r w n : ℕ}

/-- The part that is missing from a multiple, rounded up, is at most the factor. -/
theorem ceilDiv_le (hn : 0 < n) (h : x + r = w * n) : r ⌈/⌉ n ≤ w := by
  rw [ceilDiv_le_iff_le_mul hn, Nat.mul_comm]
  omega

/-- **A quotient short of a whole number**: what is missing is rounded up. -/
theorem div_eq_sub_ceilDiv (hn : 0 < n) (h : x + r = w * n) : x / n = w - r ⌈/⌉ n := by
  have hle : r ⌈/⌉ n ≤ w := ceilDiv_le hn h
  refine le_antisymm ?_ ?_
  · -- the quotient and the missing part, rounded up, are at most `w` together
    have hmul : r ≤ n * (w - x / n) := by
      have hfloor : x / n * n ≤ x := Nat.div_mul_le_self x n
      have hdiff : n * (w - x / n) = w * n - x / n * n := by
        rw [Nat.mul_sub, Nat.mul_comm n w, Nat.mul_comm n (x / n)]
      omega
    have hceil : r ⌈/⌉ n ≤ w - x / n := (ceilDiv_le_iff_le_mul hn).mpr hmul
    have hquot : x / n ≤ w := Nat.div_le_of_le_mul (by rw [Nat.mul_comm]; omega)
    omega
  · rw [Nat.le_div_iff_mul_le hn, Nat.sub_mul]
    have hceil : r ≤ n * (r ⌈/⌉ n) := (ceilDiv_le_iff_le_mul hn).mp le_rfl
    rw [Nat.mul_comm n] at hceil
    omega

/-- Rounding up is monotone. -/
theorem ceilDiv_mono {a b : ℕ} (hn : 0 < n) (hab : a ≤ b) : a ⌈/⌉ n ≤ b ⌈/⌉ n :=
  (gc_mul_ceilDiv hn).monotone_l hab

/-- The quotients of a list claim at most the sum. -/
theorem sum_map_div_mul_le (l : List ℕ) (d : ℕ) : (l.map (· / d)).sum * d ≤ l.sum := by
  induction l with
  | nil => exact (Nat.zero_mul d).le
  | cons a l ih =>
      rw [List.map_cons, List.sum_cons, List.sum_cons, Nat.add_mul]
      exact Nat.add_le_add (Nat.div_mul_le_self a d) ih

/-- They miss less than one unit a term. -/
theorem sum_add_length_le {d : ℕ} (hd : 0 < d) (l : List ℕ) :
    l.sum + l.length ≤ ((l.map (· / d)).sum + l.length) * d := by
  induction l with
  | nil => exact Nat.zero_le _
  | cons a l ih =>
      have hone : a + 1 ≤ (a / d + 1) * d := Nat.lt_mul_of_div_lt (Nat.lt_succ_self _) hd
      rw [List.map_cons, List.sum_cons, List.sum_cons, List.length_cons]
      calc a + l.sum + (l.length + 1)
          = a + 1 + (l.sum + l.length) := by ring
        _ ≤ (a / d + 1) * d + ((l.map (· / d)).sum + l.length) * d := Nat.add_le_add hone ih
        _ = (a / d + (l.map (· / d)).sum + (l.length + 1)) * d := by ring

/-- **Splitting a sum rounds down no less often**: the quotients of the terms sum up to at
most the quotient of the sum. -/
theorem sum_map_div_le (l : List ℕ) (d : ℕ) : (l.map (· / d)).sum ≤ l.sum / d := by
  rcases Nat.eq_zero_or_pos d with rfl | hd
  · simp
  · exact (Nat.le_div_iff_mul_le hd).mpr (sum_map_div_mul_le l d)

/-- **A sum of `n` quotients** is short of the quotient of the sum by at most `n - 1`. -/
theorem le_sum_map_div_add (l : List ℕ) (d : ℕ) :
    l.sum / d ≤ (l.map (· / d)).sum + (l.length - 1) := by
  rcases Nat.eq_zero_or_pos d with rfl | hd
  · simp
  rcases Nat.eq_zero_or_pos l.length with hnil | hpos
  · rw [List.length_eq_zero_iff.mp hnil]
    exact (Nat.zero_div d).le
  · have hbound := sum_add_length_le hd l
    have hlt : l.sum / d < (l.map (· / d)).sum + l.length :=
      (Nat.div_lt_iff_lt_mul hd).mpr (by omega)
    omega

end Rounding
