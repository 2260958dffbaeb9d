import Mathlib.Data.Vector.Basic

/-!
# The Move Runtime

The part of Move and of the Sui framework that the contracts rest on: addresses and
object ids, abort codes, the checked arithmetic of `u64` and `u128`, and the `Balance`
operations. Machine integers are natural numbers; every native operation checks its
width and aborts the transaction when the result does not fit, as the Move VM does, so
a computation that returns has never wrapped.

A transaction that aborts has no effect: a contract function is a function into
`Except Abort`, and only its successful results update anything.
-/

namespace ZingCdn

/-- A 32-byte Sui address. -/
structure Address where
  bytes : List.Vector UInt8 32
deriving DecidableEq

/-- The id of a Sui object, itself an address. -/
structure ID where
  bytes : Address
deriving DecidableEq

/-- Why a Move call aborts. -/
inductive Abort
  /-- a failed `assert!` with its error code -/
  | code (c : ℕ)
  /-- overflow, underflow or division by zero of a native operation -/
  | arithmetic
  /-- `sui::balance::split` of more than the balance holds -/
  | notEnough
  /-- `sui::table::add` of a key that is present -/
  | fieldAlreadyExists
deriving DecidableEq, Repr

/-- `u64::MAX`. -/
def u64Max : ℕ := 18446744073709551615

/-- `u128::MAX`. -/
def u128Max : ℕ := 340282366920938463463374607431768211455

/-- `assert!(p, c)`. -/
def require (p : Prop) [Decidable p] (c : ℕ) : Except Abort Unit :=
  if p then pure () else throw (.code c)

/-- A native result of a type whose largest value is `bound`. -/
def checked (bound n : ℕ) : Except Abort ℕ :=
  if n ≤ bound then pure n else throw .arithmetic

/-- Native subtraction: aborts on underflow. -/
def checkedSub (a b : ℕ) : Except Abort ℕ :=
  if b ≤ a then pure (a - b) else throw .arithmetic

/-- `sui::balance::join`: the two values in one balance. -/
def balanceJoin (self balance : ℕ) : Except Abort ℕ := checked u64Max (self + balance)

/-- `sui::balance::split`: what remains of `self` after taking `value` out. -/
def balanceSplit (self value : ℕ) : Except Abort ℕ :=
  if value ≤ self then pure (self - value) else throw .notEnough

/-- What a transaction knows of itself: its sender, and the id that `object::new` hands
out for the object the call creates. -/
structure TxContext where
  sender : Address
  freshId : ID
deriving DecidableEq

/-! ### When the checked operations succeed -/

/-- A step that succeeds hands its value on. -/
@[simp] theorem bind_ok {ε α β : Type} (a : α) (f : α → Except ε β) :
    ((Except.ok a : Except ε α) >>= f) = f a := rfl

/-- A step that aborts ends the transaction. -/
@[simp] theorem bind_error {ε α β : Type} (e : ε) (f : α → Except ε β) :
    ((Except.error e : Except ε α) >>= f) = Except.error e := rfl

/-- Returning is success. -/
@[simp] theorem pure_eq_ok {ε α : Type} (a : α) : (pure a : Except ε α) = .ok a := rfl

/-- Throwing is an abort. -/
@[simp] theorem throw_eq_error {ε α : Type} (e : ε) :
    (throw e : Except ε α) = .error e := rfl

/-- An assertion that holds does nothing. -/
theorem require_of {p : Prop} [Decidable p] {c : ℕ} (h : p) : require p c = .ok () := if_pos h

/-- One that does not hold aborts with its code. -/
theorem require_of_not {p : Prop} [Decidable p] {c : ℕ} (h : ¬p) :
    require p c = .error (.code c) := if_neg h

/-- An assertion succeeds exactly when it holds. -/
@[simp] theorem require_eq_ok_iff {p : Prop} [Decidable p] {c : ℕ} {u : Unit} :
    require p c = .ok u ↔ p := by
  by_cases h : p <;> simp [require, h]

/-- A number within the bound is itself. -/
theorem checked_of_le {bound n : ℕ} (h : n ≤ bound) : checked bound n = .ok n := if_pos h

/-- A number is returned exactly when it is within the bound. -/
@[simp] theorem checked_eq_ok_iff {bound n m : ℕ} :
    checked bound n = .ok m ↔ n ≤ bound ∧ n = m := by
  by_cases h : n ≤ bound <;> simp [checked, h]

/-- A subtraction that does not go below zero. -/
theorem checkedSub_of_le {a b : ℕ} (h : b ≤ a) : checkedSub a b = .ok (a - b) := if_pos h

/-- A subtraction succeeds exactly when it does not go below zero. -/
@[simp] theorem checkedSub_eq_ok_iff {a b m : ℕ} :
    checkedSub a b = .ok m ↔ b ≤ a ∧ a - b = m := by
  by_cases h : b ≤ a <;> simp [checkedSub, h]

/-- A join that fits 64 bits. -/
theorem balanceJoin_of_le {a b : ℕ} (h : a + b ≤ u64Max) : balanceJoin a b = .ok (a + b) :=
  if_pos h

/-- A join succeeds exactly when it fits 64 bits. -/
@[simp] theorem balanceJoin_eq_ok_iff {a b m : ℕ} :
    balanceJoin a b = .ok m ↔ a + b ≤ u64Max ∧ a + b = m :=
  checked_eq_ok_iff

/-- A split of what is there. -/
theorem balanceSplit_of_le {a b : ℕ} (h : b ≤ a) : balanceSplit a b = .ok (a - b) := if_pos h

/-- A split succeeds exactly when there is enough. -/
@[simp] theorem balanceSplit_eq_ok_iff {a b m : ℕ} :
    balanceSplit a b = .ok m ↔ b ≤ a ∧ a - b = m := by
  by_cases h : b ≤ a <;> simp [balanceSplit, h]

/-- A sequence of two computations succeeds exactly when both do, in turn. -/
theorem bind_eq_ok_iff {ε α β : Type} {x : Except ε α} {f : α → Except ε β} {b : β} :
    (x >>= f) = .ok b ↔ ∃ a, x = .ok a ∧ f a = .ok b := by
  cases x <;> simp

end ZingCdn
