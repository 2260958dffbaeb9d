import Mathlib.Algebra.Order.Ring.Nat
import Mathlib.Data.List.Basic
import Mathlib.Tactic.Ring

/-!
# Little-Endian Numbers

Natural numbers as fixed numbers of bytes, lowest first. `split` keeps what fits the width,
`combine` reads any bytes, and reading what was written gives the number back.

## Main results

* `combine_split`, `combine_split_of_lt`: the round trip, of any number and of one that fits.
-/

namespace LittleEndian

variable {width n : ℕ}

/-- The bytes of a number, as many as fit the width. -/
def split : ℕ → ℕ → List UInt8
  | 0, _ => []
  | width + 1, n => UInt8.ofNat n :: split width (n / 256)

/-- The number that some bytes are. -/
def combine : List UInt8 → ℕ
  | [] => 0
  | b :: rest => b.toNat + 256 * combine rest

@[simp] theorem length_split (width n : ℕ) : (split width n).length = width := by
  induction width generalizing n with
  | zero => rfl
  | succ width ih => rw [split, List.length_cons, ih]

/-- The bytes of a number are its digits. -/
theorem split_eq_map (width n : ℕ) :
    split width n = (List.range width).map fun i => UInt8.ofNat (n / 256 ^ i) := by
  induction width generalizing n with
  | zero => rfl
  | succ width ih =>
      rw [split, ih, List.range_succ_eq_map, List.map_cons, List.map_map, Nat.pow_zero,
        Nat.div_one]
      refine congrArg (UInt8.ofNat n :: ·) (List.map_congr_left fun i _ => ?_)
      rw [Function.comp_apply, Nat.div_div_eq_div_mul, Nat.succ_eq_add_one, Nat.pow_succ,
        Nat.mul_comm]

/-- Bytes are below the power of their number. -/
theorem combine_lt (bytes : List UInt8) : combine bytes < 256 ^ bytes.length := by
  induction bytes with
  | nil => exact Nat.one_pos
  | cons b rest ih =>
      have hb : b.toNat < 256 := b.toNat_lt
      rw [combine, List.length_cons, Nat.pow_succ]
      omega

/-- **Reading what was written** gives what fits the width. -/
theorem combine_split (width n : ℕ) : combine (split width n) = n % 256 ^ width := by
  induction width generalizing n with
  | zero => rw [split, combine, Nat.pow_zero, Nat.mod_one]
  | succ width ih =>
      have hbyte : (UInt8.ofNat n).toNat = n % 256 := UInt8.toNat_ofNat'
      rw [split, combine, ih, hbyte, Nat.pow_succ, Nat.mul_comm (256 ^ width), Nat.mod_mul]

theorem combine_split_of_lt (hn : n < 256 ^ width) : combine (split width n) = n := by
  rw [combine_split, Nat.mod_eq_of_lt hn]

end LittleEndian
