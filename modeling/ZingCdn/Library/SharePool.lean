import Mathlib.Algebra.Order.Ring.Nat
import Mathlib.Tactic.Linarith
import Mathlib.Tactic.Ring
import ZingCdn.Library.Rounding

/-!
# Proportional Share Pools

A pool holds `reserves` units of an asset owned in proportion to `shares`. Deposits
mint shares at the current rate and redemptions pay at the current rate, both rounded
down; donations raise the reserves and mint nothing. The invariant that every share is
backed by at least one unit is a field of the structure, so each operation re-proves it
once and every pool has it.

The rate of a pool is the fraction `reserves / shares`; rates are compared by
cross-multiplication (`RateLE`), which keeps every statement in the integers.

## Main results

* `Step.rateLE`: no operation on a pool with outstanding shares lowers the rate.
* `payout_mono`: a higher rate never pays less for the same shares.
* `payout_deposit_le`: depositing into a pool with outstanding shares and redeeming at
  once never pays more than the deposit.
* `payout_deposit_of_empty`: depositing into a pool without shares and redeeming at
  once pays the deposit and all the reserves the pool already had.
* `payout_deposit_eq`: what the round trip loses, exactly; `roundTripLoss_le` bounds it by
  the price of one share.
* `le_payout_deposit_add_one_iff`: the round trip loses at most one unit exactly when
  the remainder of the minting division is at most the shares outstanding afterwards.
* `payouts_within`, `sum_payouts_of_exit`: redeeming a list of holdings one after the other
  pays the `k`-th at least its payout from the first pool and at most `k` units more, and
  redeeming all shares pays out exactly the reserves, in every order.
-/

/-- Pooled assets owned in proportion to shares, each share backed by a unit. -/
@[ext] structure SharePool where
  reserves : ℕ
  shares : ℕ
  backed : shares ≤ reserves

namespace SharePool

variable {p q r : SharePool} {w s : ℕ}

/-- What redeeming `s` shares pays, rounded down. -/
def payout (p : SharePool) (s : ℕ) : ℕ := s * p.reserves / p.shares

/-- The shares a deposit of `w` mints: one per unit in a pool without shares, else the
proportional amount rounded down. -/
def minted (p : SharePool) (w : ℕ) : ℕ :=
  if p.shares = 0 then w else w * p.shares / p.reserves

/-- The rate of `p` is at most that of `q`, by cross-multiplication. -/
def RateLE (p q : SharePool) : Prop := p.reserves * q.shares ≤ q.reserves * p.shares

/-! ### Rounding bounds -/

theorem reserves_pos (h : 0 < p.shares) : 0 < p.reserves := lt_of_lt_of_le h p.backed

theorem minted_of_empty (h : p.shares = 0) : p.minted w = w := if_pos h

theorem minted_of_pos (h : 0 < p.shares) : p.minted w = w * p.shares / p.reserves :=
  if_neg h.ne'

/-- A deposit never mints more shares than the units deposited. -/
theorem minted_le (p : SharePool) (w : ℕ) : p.minted w ≤ w := by
  unfold minted
  split
  · exact le_rfl
  · exact Nat.div_le_of_le_mul (by
      rw [Nat.mul_comm p.reserves]
      exact Nat.mul_le_mul_left w p.backed)

/-- The minted shares are worth at most the deposit. -/
theorem minted_mul_reserves_le (h : 0 < p.shares) :
    p.minted w * p.reserves ≤ w * p.shares := by
  rw [minted_of_pos h]
  exact Nat.div_mul_le_self _ _

/-- A redemption pays at most the redeemed fraction of the reserves. -/
theorem payout_mul_shares_le (p : SharePool) (s : ℕ) :
    p.payout s * p.shares ≤ s * p.reserves :=
  Nat.div_mul_le_self _ _

/-- The reserves cover the payout of any outstanding shares. -/
theorem payout_le_reserves (hs : s ≤ p.shares) : p.payout s ≤ p.reserves := by
  refine Nat.div_le_of_le_mul ?_
  exact Nat.mul_le_mul_right p.reserves hs

/-- Redeeming every share pays every unit. -/
theorem payout_shares (h : 0 < p.shares) : p.payout p.shares = p.reserves :=
  Nat.mul_div_cancel_left _ h

/-! ### The operations -/

/-- Deposit `w` units and mint shares at the current rate. -/
def deposit (p : SharePool) (w : ℕ) : SharePool where
  reserves := p.reserves + w
  shares := p.shares + p.minted w
  backed := Nat.add_le_add p.backed (p.minted_le w)

/-- After a redemption the remaining shares are still backed: the payout is rounded
down, so what it leaves is at least the remaining fraction of the reserves. -/
theorem backed_redeem (p : SharePool) (s : ℕ) :
    p.shares - s ≤ p.reserves - p.payout s := by
  rcases Nat.lt_or_ge p.shares s with h | h
  · omega
  rcases Nat.eq_zero_or_pos p.shares with h0 | hpos
  · omega
  obtain ⟨k, hk⟩ := Nat.exists_eq_add_of_le h
  have hkey : p.payout s + k ≤ p.reserves := by
    refine Nat.le_of_mul_le_mul_right ?_ hpos
    have hpay := p.payout_mul_shares_le s
    have hback := Nat.mul_le_mul_left k p.backed
    calc (p.payout s + k) * p.shares
        = p.payout s * p.shares + k * p.shares := Nat.add_mul _ _ _
      _ ≤ s * p.reserves + k * p.reserves := Nat.add_le_add hpay hback
      _ = p.reserves * p.shares := by rw [hk]; ring
  omega

/-- Redeem `s` shares at the current rate. -/
def redeem (p : SharePool) (s : ℕ) : SharePool where
  reserves := p.reserves - p.payout s
  shares := p.shares - s
  backed := p.backed_redeem s

/-- Add `a` units without minting. -/
def donate (p : SharePool) (a : ℕ) : SharePool where
  reserves := p.reserves + a
  shares := p.shares
  backed := le_trans p.backed (Nat.le_add_right _ _)

@[simp] theorem deposit_reserves : (p.deposit w).reserves = p.reserves + w := rfl
@[simp] theorem deposit_shares : (p.deposit w).shares = p.shares + p.minted w := rfl
@[simp] theorem redeem_reserves : (p.redeem s).reserves = p.reserves - p.payout s := rfl
@[simp] theorem redeem_shares : (p.redeem s).shares = p.shares - s := rfl

/-! ### The rate never falls -/

theorem RateLE.refl (p : SharePool) : p.RateLE p := le_rfl

/-- Rates compose through a pool with outstanding shares. -/
theorem RateLE.trans (hpq : p.RateLE q) (hqr : q.RateLE r) (hq : 0 < q.shares) :
    p.RateLE r := by
  refine Nat.le_of_mul_le_mul_right ?_ hq
  calc p.reserves * r.shares * q.shares
      = p.reserves * q.shares * r.shares := by ring
    _ ≤ q.reserves * p.shares * r.shares := Nat.mul_le_mul_right _ hpq
    _ = q.reserves * r.shares * p.shares := by ring
    _ ≤ r.reserves * q.shares * p.shares := Nat.mul_le_mul_right _ hqr
    _ = r.reserves * p.shares * q.shares := by ring

/-- A deposit mints at most the proportional shares, so it never lowers the rate. -/
theorem rateLE_deposit (h : 0 < p.shares) (w : ℕ) : p.RateLE (p.deposit w) := by
  have := minted_mul_reserves_le (w := w) h
  simp only [RateLE, deposit_reserves, deposit_shares]
  nlinarith

/-- A redemption pays at most the proportional reserves, so it never lowers the rate. -/
theorem rateLE_redeem (hs : s ≤ p.shares) : p.RateLE (p.redeem s) := by
  obtain ⟨k, hk⟩ := Nat.exists_eq_add_of_le hs
  obtain ⟨m, hm⟩ := Nat.exists_eq_add_of_le (payout_le_reserves hs)
  have hpay := p.payout_mul_shares_le s
  have hk' : p.shares - s = k := by omega
  have hm' : p.reserves - p.payout s = m := by omega
  simp only [RateLE, redeem_reserves, redeem_shares, hk', hm']
  have h1 : p.reserves * p.shares = p.payout s * p.shares + m * p.shares := by
    conv_lhs => rw [hm]
    ring
  have h2 : p.reserves * p.shares = s * p.reserves + p.reserves * k := by
    conv_lhs => rw [hk]
    ring
  omega

/-- A donation raises the rate. -/
theorem rateLE_donate (p : SharePool) (a : ℕ) : p.RateLE (p.donate a) :=
  Nat.mul_le_mul_right _ (Nat.le_add_right _ _)

/-- One operation on a pool. -/
inductive Step (p : SharePool) : SharePool → Prop
  | deposit (w : ℕ) : Step p (p.deposit w)
  | redeem {s : ℕ} (hs : s ≤ p.shares) : Step p (p.redeem s)
  | donate (a : ℕ) : Step p (p.donate a)

/-- **No operation lowers the rate** of a pool with outstanding shares. -/
theorem Step.rateLE (h : p.Step q) (hpos : 0 < p.shares) : p.RateLE q := by
  cases h with
  | deposit w => exact rateLE_deposit hpos w
  | redeem hs => exact rateLE_redeem hs
  | donate a => exact rateLE_donate p a

/-- Nor does leaving the pool alone. -/
theorem rateLE_of_reflGen (h : Relation.ReflGen Step p q) (hpos : 0 < p.shares) :
    p.RateLE q := by
  cases h with
  | refl => exact RateLE.refl p
  | single h => exact h.rateLE hpos

/-- A higher rate never pays less for the same shares. -/
theorem payout_mono (h : p.RateLE q) (hq : 0 < q.shares) (s : ℕ) :
    p.payout s ≤ q.payout s := by
  rcases Nat.eq_zero_or_pos p.shares with h0 | hp
  · simp [payout, h0]
  · refine (Nat.le_div_iff_mul_le hq).mpr (Nat.le_of_mul_le_mul_right ?_ hp)
    calc p.payout s * q.shares * p.shares
        = p.payout s * p.shares * q.shares := by ring
      _ ≤ s * p.reserves * q.shares := Nat.mul_le_mul_right _ (p.payout_mul_shares_le s)
      _ = s * (p.reserves * q.shares) := by ring
      _ ≤ s * (q.reserves * p.shares) := Nat.mul_le_mul_left _ h
      _ = s * q.reserves * p.shares := by ring

/-! ### The round trip of a deposit -/

/-- The exact balance of the minting division: what the minted shares claim of the
enlarged reserves, and the remainder, make up the deposit's claim. -/
theorem minted_mul_add_mod (h : 0 < p.shares) (w : ℕ) :
    p.minted w * (p.reserves + w) + w * p.shares % p.reserves
      = w * (p.shares + p.minted w) := by
  have hdiv := Nat.div_add_mod (w * p.shares) p.reserves
  rw [minted_of_pos h]
  nlinarith

/-- What a deposit of `w` loses when it is redeemed at once: the remainder of the minting
division over the shares outstanding in between, rounded up. -/
def roundTripLoss (p : SharePool) (w : ℕ) : ℕ :=
  (w * p.shares % p.reserves) ⌈/⌉ (p.shares + p.minted w)

/-- The shares outstanding between deposit and redemption are positive. -/
theorem shares_add_minted_pos (h : 0 < p.shares) (w : ℕ) : 0 < p.shares + p.minted w :=
  Nat.add_pos_left h _

/-- A round trip loses at most the deposit. -/
theorem roundTripLoss_le_deposit (h : 0 < p.shares) (w : ℕ) : p.roundTripLoss w ≤ w :=
  Rounding.ceilDiv_le (shares_add_minted_pos h w) (minted_mul_add_mod h w)

/-- **The loss of a round trip**, exactly. -/
theorem payout_deposit_eq (h : 0 < p.shares) (w : ℕ) :
    (p.deposit w).payout (p.minted w) = w - p.roundTripLoss w :=
  Rounding.div_eq_sub_ceilDiv (shares_add_minted_pos h w) (minted_mul_add_mod h w)

/-- The loss is at most the price of one share, rounded up: the remainder is below the
divisor. -/
theorem roundTripLoss_le (h : 0 < p.shares) (w : ℕ) :
    p.roundTripLoss w ≤ p.reserves ⌈/⌉ (p.shares + p.minted w) := by
  have hmod : w * p.shares % p.reserves < p.reserves := Nat.mod_lt _ (reserves_pos h)
  exact Rounding.ceilDiv_mono (shares_add_minted_pos h w) hmod.le

/-- **No free profit** once shares are outstanding. -/
theorem payout_deposit_le (h : 0 < p.shares) (w : ℕ) :
    (p.deposit w).payout (p.minted w) ≤ w := by
  refine Nat.div_le_of_le_mul ?_
  have := minted_mul_add_mod h w
  simp only [deposit_reserves, deposit_shares]
  rw [Nat.mul_comm (p.shares + _) w]
  omega

/-- Into a pool without shares, the round trip returns the deposit together with
everything the pool already held. -/
theorem payout_deposit_of_empty (h : p.shares = 0) (hw : 0 < w) :
    (p.deposit w).payout (p.minted w) = p.reserves + w := by
  simp only [payout, deposit_reserves, deposit_shares, minted_of_empty h, h, Nat.zero_add]
  exact Nat.mul_div_cancel_left _ hw

/-- **One unit of rounding**: the round trip loses at most one unit exactly when the
remainder of the minting division is at most the shares outstanding afterwards. -/
theorem le_payout_deposit_add_one_iff (h : 0 < p.shares) (w : ℕ) :
    w ≤ (p.deposit w).payout (p.minted w) + 1 ↔
      w * p.shares % p.reserves ≤ p.shares + p.minted w := by
  have hbal := minted_mul_add_mod h w
  have hT : 0 < p.shares + p.minted w := by omega
  rcases Nat.eq_zero_or_pos w with rfl | hw
  · simp
  obtain ⟨v, rfl⟩ : ∃ v, w = v + 1 := ⟨w - 1, by omega⟩
  rw [Nat.add_le_add_iff_right, payout, deposit_reserves, deposit_shares,
    Nat.le_div_iff_mul_le hT]
  rw [Nat.add_mul v 1 (p.shares + _), Nat.one_mul] at hbal
  omega

/-! ### Redeeming one holding after the other -/

/-- The pool after redeeming a list of holdings in order. -/
def redeemAll (p : SharePool) : List ℕ → SharePool
  | [] => p
  | s :: holdings => (p.redeem s).redeemAll holdings

/-- What each holding of a list pays when they are redeemed in order. -/
def payouts (p : SharePool) : List ℕ → List ℕ
  | [] => []
  | s :: holdings => p.payout s :: (p.redeem s).payouts holdings

@[simp] theorem redeemAll_cons {l : List ℕ} :
    p.redeemAll (s :: l) = (p.redeem s).redeemAll l := rfl
@[simp] theorem payouts_cons {l : List ℕ} :
    p.payouts (s :: l) = p.payout s :: (p.redeem s).payouts l := rfl

theorem length_payouts (p : SharePool) (l : List ℕ) : (p.payouts l).length = l.length := by
  induction l generalizing p with
  | nil => rfl
  | cons s l ih => rw [payouts_cons, List.length_cons, List.length_cons, ih]

/-- Redemptions burn exactly the redeemed shares. -/
theorem redeemAll_shares (p : SharePool) (l : List ℕ) :
    (p.redeemAll l).shares = p.shares - l.sum := by
  induction l generalizing p with
  | nil => rfl
  | cons s l ih => rw [redeemAll_cons, ih, redeem_shares, List.sum_cons, Nat.sub_sub]

/-- Redemptions pay out exactly what the reserves lose. -/
theorem sum_payouts_add_reserves (p : SharePool) {l : List ℕ} (hl : l.sum ≤ p.shares) :
    (p.payouts l).sum + (p.redeemAll l).reserves = p.reserves := by
  induction l generalizing p with
  | nil => exact Nat.zero_add _
  | cons s l ih =>
      rw [List.sum_cons] at hl
      have hrest : l.sum ≤ (p.redeem s).shares := by
        rw [redeem_shares]
        omega
      have hpay : p.payout s ≤ p.reserves := payout_le_reserves (by omega)
      have := ih (p.redeem s) hrest
      rw [redeem_reserves] at this
      rw [payouts_cons, List.sum_cons, redeemAll_cons]
      omega

/-- Redeeming all shares leaves no reserves: the last redemption is of all the shares
there are. -/
theorem redeemAll_reserves_of_exit (h : 0 < p.shares) {l : List ℕ} (hl : l.sum = p.shares) :
    (p.redeemAll l).reserves = 0 := by
  induction l generalizing p with
  | nil => exact absurd hl h.ne
  | cons s l ih =>
      rw [List.sum_cons] at hl
      rcases Nat.eq_zero_or_pos l.sum with hlast | hmore
      · have hs : s = p.shares := by omega
        have hempty : (p.redeem s).reserves = 0 := by
          rw [redeem_reserves, hs, payout_shares h, Nat.sub_self]
        have hsum := sum_payouts_add_reserves (p.redeem s) (l := l) (by omega)
        rw [redeemAll_cons]
        omega
      · have hshares : (p.redeem s).shares = l.sum := by
          rw [redeem_shares]
          omega
        exact ih (hshares ▸ hmore) hshares.symm

/-- **A full exit leaves no dust**: redeeming all shares pays out exactly the reserves. -/
theorem sum_payouts_of_exit (h : 0 < p.shares) {l : List ℕ} (hl : l.sum = p.shares) :
    (p.payouts l).sum = p.reserves := by
  have := sum_payouts_add_reserves p hl.le
  rw [redeemAll_reserves_of_exit h hl] at this
  omega

/-- The shares of `q` are worth at most `n` units more than at the rate of `p`. -/
def RateWithin (p q : SharePool) (n : ℕ) : Prop :=
  q.reserves * p.shares ≤ p.reserves * q.shares + n * p.shares

theorem RateWithin.refl (p : SharePool) : p.RateWithin p 0 := Nat.le_add_right _ _

/-- The product form of the rounded-down payout. -/
theorem mul_reserves_lt (h : 0 < p.shares) (s : ℕ) :
    s * p.reserves < (p.payout s + 1) * p.shares := by
  rw [Nat.mul_comm _ p.shares]
  exact Nat.lt_mul_div_succ _ h

/-- Rounding down leaves less than one unit behind, so a redemption moves the pool by at
most one unit more. -/
theorem RateWithin.redeem {n : ℕ} (h : p.RateWithin q n) (hle : p.RateLE q)
    (hp : 0 < p.shares) (hq : 0 < q.shares) (hs : s ≤ q.shares) :
    p.RateWithin (q.redeem s) (n + 1) := by
  obtain ⟨k, hk⟩ := Nat.exists_eq_add_of_le hs
  obtain ⟨m, hm⟩ := Nat.exists_eq_add_of_le (payout_le_reserves hs)
  have hk' : q.shares - s = k := by omega
  have hm' : q.reserves - q.payout s = m := by omega
  have hpay : s * p.reserves ≤ (q.payout s + 1) * p.shares :=
    (mul_reserves_lt hp s).le.trans
      (Nat.mul_le_mul_right _ (Nat.succ_le_succ (payout_mono hle hq s)))
  have hwithin : (q.payout s + m) * p.shares ≤ p.reserves * (s + k) + n * p.shares := by
    have := h
    rwa [RateWithin, hk, hm] at this
  rw [RateWithin, redeem_reserves, redeem_shares, hk', hm']
  nlinarith

/-- A pool within `n` units pays at most `n` units more. -/
theorem RateWithin.payout_le {n : ℕ} (h : p.RateWithin q n) (hp : 0 < p.shares)
    (hq : 0 < q.shares) (hs : s ≤ q.shares) : q.payout s ≤ p.payout s + n := by
  refine Nat.le_of_lt_succ ((Nat.div_lt_iff_lt_mul hq).mpr ?_)
  refine Nat.lt_of_mul_lt_mul_right (a := p.shares) ?_
  calc s * q.reserves * p.shares
      = s * (q.reserves * p.shares) := Nat.mul_assoc _ _ _
    _ ≤ s * (p.reserves * q.shares + n * p.shares) := Nat.mul_le_mul_left _ h
    _ = s * p.reserves * q.shares + s * (n * p.shares) := by ring
    _ ≤ s * p.reserves * q.shares + q.shares * (n * p.shares) :=
        Nat.add_le_add_left (Nat.mul_le_mul_right _ hs) _
    _ < (p.payout s + 1) * p.shares * q.shares + q.shares * (n * p.shares) :=
        Nat.add_lt_add_right (Nat.mul_lt_mul_of_pos_right (mul_reserves_lt hp s) hq) _
    _ = (p.payout s + n).succ * q.shares * p.shares := by
        rw [Nat.succ_eq_add_one]
        ring

/-- Redeeming positive holdings in order from a pool within `n` units of `p`, at no lower
rate, pays the `k`-th at least what `p` pays and at most `n + k` units more. -/
theorem payouts_within_of {n : ℕ} (hp : 0 < p.shares) (hle : p.RateLE q)
    (hwithin : p.RateWithin q n) {l : List ℕ} (hl : l.sum ≤ q.shares) (hpos : ∀ s ∈ l, 0 < s)
    {k : ℕ} (hk : l[k]? = some s) : ∃ w, (q.payouts l)[k]? = some w ∧
      p.payout s ≤ w ∧ w ≤ p.payout s + (n + k) := by
  induction l generalizing q n k with
  | nil => simp at hk
  | cons t l ih =>
      rw [List.sum_cons] at hl
      have ht : 0 < t := hpos t List.mem_cons_self
      have hq : 0 < q.shares := by omega
      have hts : t ≤ q.shares := by omega
      cases k with
      | zero =>
          obtain rfl : t = s := by simpa using hk
          exact ⟨q.payout t, rfl, payout_mono hle hq t, hwithin.payout_le hp hq hts⟩
      | succ k =>
          have hrest : l.sum ≤ (q.redeem t).shares := by
            rw [redeem_shares]
            omega
          obtain ⟨w, hw, hlow, hhigh⟩ := ih (hle.trans (rateLE_redeem hts) hq)
            (hwithin.redeem hle hp hq hts) hrest
            (fun u hu => hpos u (List.mem_cons_of_mem _ hu)) hk
          exact ⟨w, hw, hlow, by omega⟩

/-- **Every order is fair up to rounding**: redeeming positive holdings in order pays the
`k`-th, counted from zero, at least what the first pool pays for it and at most `k` units
more. -/
theorem payouts_within (hp : 0 < p.shares) {l : List ℕ} (hl : l.sum ≤ p.shares)
    (hpos : ∀ s ∈ l, 0 < s) {k : ℕ} (hk : l[k]? = some s) :
    ∃ w, (p.payouts l)[k]? = some w ∧ p.payout s ≤ w ∧ w ≤ p.payout s + k := by
  simpa using payouts_within_of hp (RateLE.refl p) (RateWithin.refl p) hl hpos hk

end SharePool
