import Mathlib.Logic.Relation

/-!
# Runs of a Transition System

A transition system is a predicate `init` on states and a relation `step` between
them. This module packages the two inductions every safety argument repeats:

* `Reachable.invariant`: a property that holds initially and that every step
  preserves holds of every reachable state;
* `runs_of_step`: a reflexive and transitive comparison of two states that holds over
  every step taken from a state satisfying an invariant holds over every run.
-/

open Relation

namespace Transition

variable {σ : Type*} {init : σ → Prop} {step : σ → σ → Prop}

/-- A state some run from an initial state ends in. -/
def Reachable (init : σ → Prop) (step : σ → σ → Prop) (s : σ) : Prop :=
  ∃ s₀, init s₀ ∧ ReflTransGen step s₀ s

/-- Initial states are reachable. -/
theorem Reachable.of_init {s : σ} (h : init s) : Reachable init step s :=
  ⟨s, h, .refl⟩

/-- Reachability is closed under runs. -/
theorem Reachable.run {s s' : σ} (h : Reachable init step s)
    (hr : ReflTransGen step s s') : Reachable init step s' := by
  obtain ⟨s₀, h₀, hrun⟩ := h
  exact ⟨s₀, h₀, hrun.trans hr⟩

/-- Reachability is closed under one step. -/
theorem Reachable.snoc {s s' : σ} (h : Reachable init step s) (hs : step s s') :
    Reachable init step s' :=
  h.run (.single hs)

/-- A relation with fewer steps reaches fewer states. -/
theorem Reachable.mono {step' : σ → σ → Prop} (hle : ∀ s s', step s s' → step' s s') {s : σ}
    (h : Reachable init step s) : Reachable init step' s := by
  obtain ⟨s₀, h₀, hrun⟩ := h
  exact ⟨s₀, h₀, ReflTransGen.mono hle s₀ s hrun⟩

/-- An invariant of the step relation is preserved by every run. -/
theorem invariant_of_run (inv : σ → Prop) (hstep : ∀ s s', inv s → step s s' → inv s')
    {s s' : σ} (hs : inv s) (hr : ReflTransGen step s s') : inv s' := by
  induction hr with
  | refl => exact hs
  | tail _ hlast ih => exact hstep _ _ ih hlast

/-- **The invariant rule.** A property of the initial states that every step preserves
holds of every reachable state. -/
theorem Reachable.invariant (inv : σ → Prop) (hinit : ∀ s, init s → inv s)
    (hstep : ∀ s s', inv s → step s s' → inv s') {s : σ}
    (h : Reachable init step s) : inv s := by
  obtain ⟨s₀, h₀, hrun⟩ := h
  exact invariant_of_run inv hstep (hinit s₀ h₀) hrun

/-- **The comparison rule.** A reflexive comparison that extends over each step from a
state satisfying the invariant relates the two ends of every run. -/
theorem runs_of_step (inv : σ → Prop) (rel : σ → σ → Prop)
    (hinv : ∀ s s', inv s → step s s' → inv s') (hrefl : ∀ s, inv s → rel s s)
    (hstep : ∀ s₀ s s', inv s₀ → inv s → rel s₀ s → step s s' → rel s₀ s')
    {s s' : σ} (hs : inv s) (hr : ReflTransGen step s s') : rel s s' := by
  induction hr with
  | refl => exact hrefl s hs
  | tail hrun hlast ih => exact hstep _ _ _ hs (invariant_of_run inv hinv hs hrun) ih hlast

end Transition
