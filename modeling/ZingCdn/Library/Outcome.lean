import Mathlib.Order.Basic

/-!
# Computations That Must Not Fail One Way

A computation in `Except ε` may fail, but not with the error `bad`: the panic of a program whose
other errors are results. `Ensures` says that of a computation together with what holds of the
value it returns, and composes along sequences and bounded loops.

## Main results

* `Ensures.bind`: the rule for sequences.
* `Ensures.turns`: the rule for loops, from an invariant that may count the turns.
-/

namespace Outcome

variable {ε α β σ : Type} {bad : ε} {post post' : α → Prop}

/-- The computation does not fail with `bad`, and what it returns satisfies `post`. -/
def Ensures (bad : ε) (post : α → Prop) : Except ε α → Prop
  | .ok a => post a
  | .error e => e ≠ bad

/-- The error does not happen. -/
theorem Ensures.ne_error {x : Except ε α} (h : Ensures bad post x) : x ≠ .error bad := by
  rintro rfl
  exact h rfl

/-- The value is as it should be. -/
theorem Ensures.of_eq_ok {x : Except ε α} {a : α} (h : Ensures bad post x) (hx : x = .ok a) :
    post a := by
  subst hx
  exact h

/-- A weaker condition. -/
theorem Ensures.mono {x : Except ε α} (h : Ensures bad post x) (hpost : ∀ a, post a → post' a) :
    Ensures bad post' x := by
  cases x with
  | ok a => exact hpost a h
  | error e => exact h

/-- **The rule for sequences.** -/
theorem Ensures.bind {mid : β → Prop} {x : Except ε β} {f : β → Except ε α}
    (hx : Ensures bad mid x) (hf : ∀ b, mid b → Ensures bad post (f b)) :
    Ensures bad post (x >>= f) := by
  cases x with
  | ok b => exact hf b hx
  | error e => exact hx

/-- A guard that refuses with another error. -/
theorem Ensures.guard {refuse : Prop} [Decidable refuse] {e : ε} {x : Except ε α} (he : e ≠ bad)
    (hx : ¬refuse → Ensures bad post x) :
    Ensures bad post (if refuse then .error e else x) := by
  split
  · exact he
  · rename_i hpass
    exact hx hpass

/-! ### Loops -/

/-- Some turns of a loop, as long as none fails. -/
def turns (step : σ → Except ε σ) : ℕ → σ → Except ε σ
  | 0, s => .ok s
  | n + 1, s => do
      let s ← step s
      turns step n s

/-- **The rule for loops.** An invariant of the number of turns made and the state, that every
turn keeps, holds after all of them. -/
theorem Ensures.turns {step : σ → Except ε σ} (inv : ℕ → σ → Prop)
    (hstep : ∀ k s, inv k s → Ensures bad (inv (k + 1)) (step s)) (n : ℕ) {k : ℕ} {s : σ}
    (hs : inv k s) : Ensures bad (inv (k + n)) (turns step n s) := by
  induction n generalizing k s with
  | zero => exact hs
  | succ n ih =>
      refine (hstep k s hs).bind fun s' hs' => ?_
      have hlast := ih hs'
      rwa [Nat.add_right_comm, Nat.add_assoc] at hlast

end Outcome
