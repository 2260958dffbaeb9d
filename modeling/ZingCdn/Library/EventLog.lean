import Mathlib.Algebra.BigOperators.Group.List.Basic
import Mathlib.Algebra.Ring.Int.Defs
import Mathlib.Tactic.Abel
import ZingCdn.Library.Transition

/-!
# Quantities Replayed from a Log

A transition system that appends to a log as it runs can be read back from that log: when
every step changes a view of the state by folding the step's own entries over it, the view
of a reachable state is the fold of its whole log. Two folds cover what an auditor does
with a log: adding up the amounts of its entries (`total`) and collecting what the entries
report (`List.filterMap`).

## Main results

* `replay`: the view of a reachable state is the fold of its log.
* `eq_total`: a quantity each step changes by the total of its entries is the total of the
  log.
* `eq_filterMap`: a list each step extends by what its entries report is what the log
  reports.
-/

namespace EventLog

variable {σ ε β γ : Type*} {init : σ → Prop} {step : σ → σ → Prop} {log : σ → List ε}

/-! ### Totals -/

/-- The sum of an amount over the entries of a log. -/
def total (amount : ε → ℤ) (entries : List ε) : ℤ := (entries.map amount).sum

/-- Nothing happened. -/
@[simp] theorem total_nil (amount : ε → ℤ) : total amount [] = 0 := rfl

/-- One entry more. -/
@[simp] theorem total_cons (amount : ε → ℤ) (e : ε) (entries : List ε) :
    total amount (e :: entries) = amount e + total amount entries :=
  List.sum_cons

/-- Two logs, one behind the other. -/
theorem total_append (amount : ε → ℤ) (xs ys : List ε) :
    total amount (xs ++ ys) = total amount xs + total amount ys := by
  rw [total, List.map_append, List.sum_append, total, total]

/-- The total of a sum. -/
theorem total_add (f g : ε → ℤ) (entries : List ε) :
    total (fun e => f e + g e) entries = total f entries + total g entries :=
  List.sum_map_add

/-- The total of a difference. -/
theorem total_sub (f g : ε → ℤ) (entries : List ε) :
    total (fun e => f e - g e) entries = total f entries - total g entries := by
  induction entries with
  | nil => rfl
  | cons e entries ih =>
      rw [total_cons, total_cons, total_cons, ih]
      abel

/-- Totals as folds, from any start. -/
theorem foldl_add_eq (amount : ε → ℤ) (entries : List ε) (n : ℤ) :
    entries.foldl (fun n e => n + amount e) n = n + total amount entries := by
  induction entries generalizing n with
  | nil => rw [List.foldl_nil, total_nil, Int.add_zero]
  | cons e entries ih => rw [List.foldl_cons, ih, total_cons, Int.add_assoc]

/-- What the entries report, as a fold, from any start. -/
theorem foldl_append_eq (f : ε → Option γ) (entries : List ε) (xs : List γ) :
    entries.foldl (fun xs e => xs ++ (f e).toList) xs = xs ++ entries.filterMap f := by
  induction entries generalizing xs with
  | nil => rw [List.foldl_nil, List.filterMap_nil, List.append_nil]
  | cons e entries ih =>
      rw [List.foldl_cons, ih, List.filterMap_cons]
      cases f e <;> simp

/-! ### Views of reachable states -/

/-- **The replay rule.** A view that starts at `b` and that every step changes by folding
the entries it appends is the fold of the log. -/
theorem replay {view : σ → β} {a : β → ε → β} {b : β}
    (hinit : ∀ s, init s → log s = [] ∧ view s = b)
    (hstep : ∀ s s', Transition.Reachable init step s → step s s' →
      ∃ es, log s' = log s ++ es ∧ view s' = es.foldl a (view s))
    {s : σ} (h : Transition.Reachable init step s) : view s = (log s).foldl a b := by
  suffices hboth : Transition.Reachable init step s ∧ view s = (log s).foldl a b from hboth.2
  refine Transition.Reachable.invariant
    (fun s => Transition.Reachable init step s ∧ view s = (log s).foldl a b) ?_ ?_ h
  · intro s₀ h₀
    obtain ⟨hlog, hview⟩ := hinit s₀ h₀
    exact ⟨.of_init h₀, by rw [hlog, hview, List.foldl_nil]⟩
  · rintro s₁ s₂ ⟨hreach, hview⟩ hs
    obtain ⟨es, hlog, hview'⟩ := hstep s₁ s₂ hreach hs
    exact ⟨hreach.snoc hs, by rw [hlog, List.foldl_append, hview', hview]⟩

/-- **The accounting rule.** A quantity that starts at zero and that every step changes by
the total of the entries it appends is the total of the log. -/
theorem eq_total {q : σ → ℤ} (amount : ε → ℤ) (hinit : ∀ s, init s → log s = [] ∧ q s = 0)
    (hstep : ∀ s s', Transition.Reachable init step s → step s s' →
      ∃ es, log s' = log s ++ es ∧ q s' = q s + total amount es)
    {s : σ} (h : Transition.Reachable init step s) : q s = total amount (log s) := by
  have hfold := replay (a := fun n e => n + amount e) hinit ?_ h
  · rw [hfold, foldl_add_eq, Int.zero_add]
  · intro s₁ s₂ hreach hs
    obtain ⟨es, hlog, hq⟩ := hstep s₁ s₂ hreach hs
    exact ⟨es, hlog, by rw [hq, foldl_add_eq]⟩

/-- **The report rule.** A list that starts empty and that every step extends by what the
entries it appends report is what the log reports. -/
theorem eq_filterMap {view : σ → List γ} (f : ε → Option γ)
    (hinit : ∀ s, init s → log s = [] ∧ view s = [])
    (hstep : ∀ s s', Transition.Reachable init step s → step s s' →
      ∃ es, log s' = log s ++ es ∧ view s' = view s ++ es.filterMap f)
    {s : σ} (h : Transition.Reachable init step s) : view s = (log s).filterMap f := by
  have hfold := replay (a := fun xs e => xs ++ (f e).toList) hinit ?_ h
  · rw [hfold, foldl_append_eq, List.nil_append]
  · intro s₁ s₂ hreach hs
    obtain ⟨es, hlog, hview⟩ := hstep s₁ s₂ hreach hs
    exact ⟨es, hlog, by rw [hview, foldl_append_eq]⟩

end EventLog
