import ZingCdn.Library.Program

/-!
# A Program Run Alone

A program that is alone with a state: each effect is a step of the state, and there is
nobody else to change it. `RunsAlone` is the big-step relation, with the history of the run.

Many programs look around for a long time before they touch the state. `Until free T` says
so about the program itself: it performs only free effects until what is left of it
satisfies `T`. When the free effects leave the state as it is, a run of such a program is a
run of what is left.

## Main results

* `runsAlone_execAlone`: machines have runs.
* `Until.bind`: looking around composes along sequencing.
* `Until.of_meets_bind`: what meets a contract of free effects only is looking around.
* `RunsAlone.exists_of_until`: the state does not change before `T`.
-/

namespace Program

open Prog

variable {E : Type} {Ans : E → Type} {σ α β : Type}

/-! ### Runs -/

/-- `RunsAlone step s p t a s'`: alone with the state `s`, the program `p` performs the
effects of `t`, returns `a` and leaves the state `s'`. -/
inductive RunsAlone (step : σ → (e : E) → Ans e → σ → Prop) :
    σ → Prog Ans α → History Ans → α → σ → Prop
  | ret (s : σ) (a : α) : RunsAlone step s (.ret a) [] a s
  | call {s s' s'' : σ} {e : E} {k : Ans e → Prog Ans α} {r : Ans e} {t : History Ans} {a : α} :
      step s e r s' → RunsAlone step s' (k r) t a s'' →
        RunsAlone step s (.call e k) (⟨e, r⟩ :: t) a s''

namespace RunsAlone

variable {step : σ → (e : E) → Ans e → σ → Prop} {s s' s'' : σ} {t t' : History Ans}

theorem ret_iff {a b : α} :
    RunsAlone step s (.ret b : Prog Ans α) t a s' ↔ t = [] ∧ a = b ∧ s' = s := by
  constructor
  · rintro ⟨⟩
    exact ⟨rfl, rfl, rfl⟩
  · rintro ⟨rfl, rfl, rfl⟩
    exact .ret _ _

theorem call_iff {e : E} {k : Ans e → Prog Ans α} {a : α} :
    RunsAlone step s (.call e k) t a s'' ↔
      ∃ r s' t', step s e r s' ∧ RunsAlone step s' (k r) t' a s'' ∧ t = ⟨e, r⟩ :: t' := by
  constructor
  · rintro (_ | ⟨hstep, hrun⟩)
    exact ⟨_, _, _, hstep, hrun, rfl⟩
  · rintro ⟨r, s', t', hstep, hrun, rfl⟩
    exact .call hstep hrun

theorem not_panic {a : α} : ¬ RunsAlone step s (.panic : Prog Ans α) t a s' := by
  rintro ⟨⟩

/-- The runs of a sequence are runs of its parts. -/
theorem bind_iff {p : Prog Ans β} {f : β → Prog Ans α} {a : α} :
    RunsAlone step s (p >>= f) t a s'' ↔
      ∃ b s' t₁ t₂, RunsAlone step s p t₁ b s' ∧ RunsAlone step s' (f b) t₂ a s'' ∧
        t = t₁ ++ t₂ := by
  constructor
  · intro hrun
    change RunsAlone step s (p.bind f) t a s'' at hrun
    induction p generalizing s t with
    | ret b => exact ⟨b, s, [], t, .ret s b, hrun, rfl⟩
    | panic => exact (not_panic hrun).elim
    | call e k ih =>
        obtain ⟨r, s', t', hstep, hrest, rfl⟩ := call_iff.mp hrun
        obtain ⟨b, s₁, t₁, t₂, hp, hf, rfl⟩ := ih r hrest
        exact ⟨b, s₁, ⟨e, r⟩ :: t₁, t₂, .call hstep hp, hf, rfl⟩
  · rintro ⟨b, s', t₁, t₂, hp, hf, rfl⟩
    induction hp with
    | ret s b => exact hf
    | call hstep _ ih => exact .call hstep (ih hf)

end RunsAlone

/-- Run a program alone against a machine that answers and changes the state. -/
def execAlone (answer : σ → (e : E) → Ans e × σ) : σ → Prog Ans α → History Ans × Option α × σ
  | s, .ret a => ([], some a, s)
  | s, .call e k =>
      let (t, a, s') := execAlone answer (answer s e).2 (k (answer s e).1)
      (⟨e, (answer s e).1⟩ :: t, a, s')
  | s, .panic => ([], none, s)

/-- A machine whose answers are steps runs a program alone. -/
theorem runsAlone_execAlone {step : σ → (e : E) → Ans e → σ → Prop}
    {answer : σ → (e : E) → Ans e × σ} (hanswer : ∀ s e, step s e (answer s e).1 (answer s e).2)
    {p : Prog Ans α} {s : σ} {a : α} (hends : (execAlone answer s p).2.1 = some a) :
    RunsAlone step s p (execAlone answer s p).1 a (execAlone answer s p).2.2 := by
  induction p generalizing s with
  | ret b =>
      obtain rfl := Option.some.inj hends
      exact .ret s b
  | panic => cases hends
  | call e k ih => exact .call (hanswer s e) (ih _ hends)

/-! ### Looking around -/

/-- `Until free T p`: the program `p` performs free effects until what is left of it
satisfies `T`. -/
inductive Until (free : E → Prop) (T : Prog Ans α → Prop) : Prog Ans α → Prop
  | here {p : Prog Ans α} : T p → Until free T p
  | call {e : E} {k : Ans e → Prog Ans α} :
      free e → (∀ r, Until free T (k r)) → Until free T (.call e k)

variable {free : E → Prop} {T : Prog Ans α → Prop}

/-- Looking around, and then what comes after it. -/
theorem Until.bind {T' : Prog Ans β → Prop} {p : Prog Ans α} {f : α → Prog Ans β}
    (hp : Until free T p) (hf : ∀ q, T q → Until free T' (q >>= f)) :
    Until free T' (p >>= f) := by
  induction hp with
  | here hT => exact hf _ hT
  | call hfree _ ih => exact .call hfree ih

/-- Looking around in either branch. -/
theorem Until.ite {b : Prop} [Decidable b] {p q : Prog Ans α} (hp : Until free T p)
    (hq : Until free T q) : Until free T (if b then p else q) := by
  split
  · exact hp
  · exact hq

/-- The contract to perform free effects only. -/
def freeContract (free : E → Prop) : Contract Ans where
  rely _ _ _ := True
  guarantee _ e := free e
  mayPanic := True

/-- **What meets the contract of free effects is looking around.** -/
theorem Until.of_meets_bind {h : History Ans} {p : Prog Ans β} {f : β → Prog Ans α}
    {Q : History Ans → β → Prop} (hp : Meets (freeContract free) h p Q) (hpanic : T .panic)
    (hf : ∀ b, Until free T (f b)) : Until free T (p >>= f) := by
  induction p generalizing h with
  | ret b => exact hf b
  | panic => exact .here hpanic
  | call e k ih => exact .call hp.1 fun r => ih r (hp.2 r trivial)

/-- **The state does not change before `T`**, when the free effects leave it as it is. -/
theorem RunsAlone.exists_of_until {step : σ → (e : E) → Ans e → σ → Prop}
    (hfree : ∀ s e r s', free e → step s e r s' → s' = s) {p : Prog Ans α}
    (hp : Until free T p) {s s' : σ} {t : History Ans} {a : α}
    (hrun : RunsAlone step s p t a s') :
    ∃ q t', T q ∧ RunsAlone step s q t' a s' := by
  induction hp generalizing t with
  | here hT => exact ⟨_, _, hT, hrun⟩
  | call he _ ih =>
      obtain ⟨r, s₁, t', hstep, hrest, rfl⟩ := RunsAlone.call_iff.mp hrun
      obtain rfl := hfree _ _ _ _ he hstep
      exact ih r hrest

end Program
