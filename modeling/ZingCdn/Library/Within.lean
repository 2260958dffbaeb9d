import ZingCdn.Library.Program

/-!
# Programs That Stay Within a Set of Effects

The effects that a program may ask for, whatever the answers it gets. This is a property of
the program tree alone, so it composes along sequencing and branching without a history.

## Main results

* `Within.bind`: sequencing.
* `Within.of_runs`: every effect of every run is one of the set.
-/

namespace Program.Prog

variable {E : Type} {Ans : E → Type} {α β : Type} {A A' : E → Prop}

/-- Whatever the answers are, the program asks for effects in `A` only. -/
def Within (A : E → Prop) : Prog Ans α → Prop
  | .ret _ => True
  | .call e k => A e ∧ ∀ r, Within A (k r)
  | .panic => True

/-- No calls at all. -/
theorem within_pure (a : α) : Within A (pure a : Prog Ans α) := trivial

/-- One call that is allowed. -/
theorem within_perform {e : E} (he : A e) : Within A (perform e : Prog Ans (Ans e)) :=
  ⟨he, fun _ => trivial⟩

/-- Sequencing. -/
theorem Within.bind {p : Prog Ans β} {f : β → Prog Ans α} (hp : Within A p)
    (hf : ∀ b, Within A (f b)) : Within A (p >>= f) := by
  show Within A (p.bind f)
  induction p with
  | ret b => exact hf b
  | call e k ih => exact ⟨hp.1, fun r => ih r (hp.2 r)⟩
  | panic => trivial

/-- **Soundness**: every effect of every run. -/
theorem Within.of_runs {p : Prog Ans α} (hp : Within A p) {t : History Ans} {o : Option α}
    (hrun : p.Runs t o) : ∀ ev ∈ t, A ev.1 := by
  induction hrun with
  | ret a => simp
  | call r hrun ih =>
      intro ev hev
      rcases List.mem_cons.mp hev with rfl | hev
      · exact hp.1
      · exact ih (hp.2 r) ev hev
  | panic => simp

end Program.Prog
