import Mathlib.Data.List.Basic
import Mathlib.Data.List.Forall2
import Mathlib.Tactic.Ring

/-!
# Programs with Effects, and Their Contracts

A program is a tree of effects: it returns, panics, or asks its environment to perform an
effect and continues with the answer. Nothing is assumed about the answers, so the
universal statements about a program hold whatever the environment does; what is known
about the environment is a **rely** on its answers, and what the program promises about
the effects it asks for is a **guarantee**. Both may depend on the history so far.

`Prog.Meets` is the weakest precondition of a program under such a contract, defined by
recursion on the program. Its rules follow the constructors (`meets_pure`,
`meets_call`, `meets_bind`, `meets_mapM`); `Prog.Meets.effect` and `Prog.Meets.result`
read them back as facts about the runs of the program, and `Prog.exists_run` provides the
runs of a given environment.

## Main results

* `Prog.meets_bind`: contracts compose along sequencing.
* `Prog.Meets.effect`, `Prog.Meets.result`: in a run whose answers respect the rely, every
  effect meets the guarantee and the result meets the postcondition.
* `Prog.exists_run`: every environment that can answer has a run.
* `Prog.Meets.ends`, `Prog.Meets.exists_ends`: the two ways to use a contract for results,
  for every run and for some run.
-/

namespace Program

variable {E : Type} {Ans : E → Type} {α β γ : Type}

/-- An effect together with the answer it received. -/
abbrev Event (Ans : E → Type) : Type := Σ e : E, Ans e

/-- The effects performed so far, oldest first. -/
abbrev History (Ans : E → Type) : Type := List (Event Ans)

/-- A program over the effects `E`, answered in `Ans`. -/
inductive Prog {E : Type} (Ans : E → Type) (α : Type) : Type
  | ret (a : α)
  | call (e : E) (k : Ans e → Prog Ans α)
  | panic

namespace Prog

/-- Run `f` on the result of a program. -/
def bind : Prog Ans α → (α → Prog Ans β) → Prog Ans β
  | .ret a, f => f a
  | .call e k, f => .call e fun r => (k r).bind f
  | .panic, _ => .panic

instance : Monad (Prog Ans) where
  pure := .ret
  bind := bind

/-- Perform one effect and return its answer. -/
def perform (e : E) : Prog Ans (Ans e) := .call e .ret

private theorem bind_ret (p : Prog Ans α) : p.bind .ret = p := by
  induction p with
  | ret a => rfl
  | call e k ih => exact congrArg (Prog.call e) (funext ih)
  | panic => rfl

private theorem bind_bind (p : Prog Ans α) (f : α → Prog Ans β) (g : β → Prog Ans γ) :
    (p.bind f).bind g = p.bind fun a => (f a).bind g := by
  induction p with
  | ret a => rfl
  | call e k ih => exact congrArg (Prog.call e) (funext ih)
  | panic => rfl

instance : LawfulMonad (Prog Ans) :=
  LawfulMonad.mk' _ bind_ret (fun _ _ => rfl) bind_bind

/-! ### Runs -/

/-- `p.Runs t o`: with the answers in `t`, the program `p` ends in `o`, where `none` is a
panic. -/
inductive Runs : Prog Ans α → History Ans → Option α → Prop
  | ret (a : α) : Runs (.ret a) [] (some a)
  | call {e : E} {k : Ans e → Prog Ans α} (r : Ans e) {t : History Ans} {o : Option α} :
      Runs (k r) t o → Runs (.call e k) (⟨e, r⟩ :: t) o
  | panic : Runs .panic [] none

@[simp] theorem runs_ret_iff {a : α} {t : History Ans} {o : Option α} :
    (Prog.ret a : Prog Ans α).Runs t o ↔ t = [] ∧ o = some a := by
  constructor
  · rintro ⟨⟩
    exact ⟨rfl, rfl⟩
  · rintro ⟨rfl, rfl⟩
    exact .ret a

@[simp] theorem runs_panic_iff {t : History Ans} {o : Option α} :
    (Prog.panic : Prog Ans α).Runs t o ↔ t = [] ∧ o = none := by
  constructor
  · rintro ⟨⟩
    exact ⟨rfl, rfl⟩
  · rintro ⟨rfl, rfl⟩
    exact .panic

/-- The runs of a program that performs an effect first. -/
theorem runs_call_iff {e : E} {k : Ans e → Prog Ans α} {t : History Ans} {o : Option α} :
    (Prog.call e k).Runs t o ↔ ∃ r t', t = ⟨e, r⟩ :: t' ∧ (k r).Runs t' o := by
  constructor
  · rintro (_ | ⟨r, hrun⟩)
    exact ⟨r, _, rfl, hrun⟩
  · rintro ⟨r, t', rfl, hrun⟩
    exact .call r hrun

/-- Behind a run of the first of two programs, the runs of both are those of the second. -/
theorem Runs.append_bind_iff {p : Prog Ans β} {f : β → Prog Ans α} {t t' : History Ans} {b : β}
    {o : Option α} (hp : p.Runs t (some b)) :
    (p >>= f).Runs (t ++ t') o ↔ (f b).Runs t' o := by
  generalize ho : some b = ob at hp
  induction hp with
  | ret a =>
      obtain rfl := Option.some.inj ho
      exact Iff.rfl
  | call r hrun ih =>
      refine Iff.trans runs_call_iff ⟨?_, fun h => ⟨r, _, rfl, (ih ho).mpr h⟩⟩
      rintro ⟨r', t'', heq, hrest⟩
      obtain ⟨hev, rfl⟩ := List.cons.inj heq
      obtain rfl := eq_of_heq (Sigma.mk.inj hev).2
      exact (ih ho).mp hrest
  | panic => cases ho

/-- A run of two programs is a run of the first and then one of the second. -/
theorem Runs.of_bind {p : Prog Ans β} {f : β → Prog Ans α} {t : History Ans} {a : α}
    (h : (p >>= f).Runs t (some a)) :
    ∃ t₁ b t₂, t = t₁ ++ t₂ ∧ p.Runs t₁ (some b) ∧ (f b).Runs t₂ (some a) := by
  change (p.bind f).Runs t (some a) at h
  induction p generalizing t with
  | ret b => exact ⟨[], b, t, rfl, .ret b, h⟩
  | call e k ih =>
      obtain ⟨r, t', rfl, hrest⟩ := runs_call_iff.mp h
      obtain ⟨t₁, b, t₂, rfl, hp, hf⟩ := ih r hrest
      exact ⟨⟨e, r⟩ :: t₁, b, t₂, rfl, .call r hp, hf⟩
  | panic => cases h

/-- The run of a program against an environment that answers from the history. -/
def exec (env : History Ans → ∀ e, Ans e) :
    History Ans → Prog Ans α → History Ans × Option α
  | _, .ret a => ([], some a)
  | h, .call e k =>
      let r := env h e
      let (t, o) := exec env (h ++ [⟨e, r⟩]) (k r)
      (⟨e, r⟩ :: t, o)
  | _, .panic => ([], none)

/-- Executing a program is one of its runs. -/
theorem runs_exec (env : History Ans → ∀ e, Ans e) (h : History Ans) (p : Prog Ans α) :
    p.Runs (exec env h p).1 (exec env h p).2 := by
  induction p generalizing h with
  | ret a => exact .ret a
  | call e k ih => exact .call _ (ih (env h e) _)
  | panic => exact .panic

/-- What an environment answers always holds of the answers of its run. -/
theorem forall_exec {rely : ∀ e, Ans e → Prop} {env : History Ans → ∀ e, Ans e}
    (henv : ∀ h e, rely e (env h e)) (h : History Ans) (p : Prog Ans α) :
    ∀ ev ∈ (exec env h p).1, rely ev.1 ev.2 := by
  induction p generalizing h with
  | ret a => simp [exec]
  | call e k ih =>
      intro ev hev
      rcases List.mem_cons.mp hev with rfl | hev
      · exact henv h e
      · exact ih _ _ ev hev
  | panic => simp [exec]

/-- The answers of a run satisfy a relation, each on the history before it. -/
def Respects (rely : History Ans → ∀ e, Ans e → Prop) :
    History Ans → History Ans → Prop
  | _, [] => True
  | h, ev :: t => rely h ev.1 ev.2 ∧ Respects rely (h ++ [ev]) t

/-- **Every environment has a run**: when each effect has some answer the rely admits, the
program has a run with such answers. -/
theorem exists_run {rely : History Ans → ∀ e, Ans e → Prop}
    (htotal : ∀ h e, ∃ r, rely h e r) (h : History Ans) (p : Prog Ans α) :
    ∃ t o, p.Runs t o ∧ Respects rely h t := by
  induction p generalizing h with
  | ret a => exact ⟨[], some a, .ret a, trivial⟩
  | call e k ih =>
      obtain ⟨r, hr⟩ := htotal h e
      obtain ⟨t, o, hrun, hresp⟩ := ih r (h ++ [⟨e, r⟩])
      exact ⟨_, o, .call r hrun, hr, hresp⟩
  | panic => exact ⟨[], none, .panic, trivial⟩

/-- A rely that looks at single answers only is respected when each answer meets it. -/
theorem respects_of_forall {rely : ∀ e, Ans e → Prop} {t : History Ans}
    (ht : ∀ ev ∈ t, rely ev.1 ev.2) (h : History Ans) : Respects (fun _ => rely) h t := by
  induction t generalizing h with
  | nil => trivial
  | cons ev t ih =>
      exact ⟨ht ev List.mem_cons_self, ih (fun ev' hev => ht ev' (List.mem_cons_of_mem _ hev)) _⟩

/-- Each answer of a respecting run meets a rely that looks at single answers only. -/
theorem forall_of_respects {rely : ∀ e, Ans e → Prop} {h t : History Ans}
    (ht : Respects (fun _ => rely) h t) : ∀ ev ∈ t, rely ev.1 ev.2 := by
  induction t generalizing h with
  | nil => simp
  | cons ev t ih =>
      rintro ev' (_ | ⟨_, hev⟩)
      · exact ht.1
      · exact ih ht.2 ev' hev

/-! ### Contracts -/

/-- What a program may rely on and what it promises. -/
structure Contract (Ans : E → Type) where
  /-- the answers the environment may give -/
  rely : History Ans → ∀ e, Ans e → Prop
  /-- the effects the program may ask for -/
  guarantee : History Ans → E → Prop
  /-- whether the program may panic -/
  mayPanic : Prop

/-- Under the contract, from the history `h`, the program asks only for effects the
guarantee admits, and returns only with the postcondition `Q`. -/
def Meets (c : Contract Ans) : History Ans → Prog Ans α → (History Ans → α → Prop) → Prop
  | h, .ret a, Q => Q h a
  | h, .call e k, Q =>
      c.guarantee h e ∧ ∀ r, c.rely h e r → Meets c (h ++ [⟨e, r⟩]) (k r) Q
  | _, .panic, _ => c.mayPanic

variable {c : Contract Ans} {h : History Ans} {Q Q' : History Ans → α → Prop}

@[simp] theorem meets_pure {a : α} : Meets c h (pure a) Q ↔ Q h a := Iff.rfl

@[simp] theorem meets_ret {a : α} : Meets c h (.ret a) Q ↔ Q h a := Iff.rfl

@[simp] theorem meets_call {e : E} {k : Ans e → Prog Ans α} :
    Meets c h (.call e k) Q ↔
      c.guarantee h e ∧ ∀ r, c.rely h e r → Meets c (h ++ [⟨e, r⟩]) (k r) Q := Iff.rfl

@[simp] theorem meets_panic : Meets c h (.panic : Prog Ans α) Q ↔ c.mayPanic := Iff.rfl

/-- A weaker postcondition, on the histories that extend the current one. -/
theorem Meets.mono {p : Prog Ans α} (hp : Meets c h p Q)
    (hQ : ∀ h' a, h <+: h' → Q h' a → Q' h' a) : Meets c h p Q' := by
  induction p generalizing h with
  | ret a => exact hQ h a (List.prefix_refl h) hp
  | call e k ih =>
      refine ⟨hp.1, fun r hr => ih r (hp.2 r hr) fun h' a hpre => hQ h' a ?_⟩
      exact (List.prefix_append h _).trans hpre
  | panic => exact hp

/-- **Sequencing**: the first program's postcondition is the second's precondition. -/
theorem meets_bind {p : Prog Ans β} {f : β → Prog Ans α} :
    Meets c h (p >>= f) Q ↔ Meets c h p fun h' b => Meets c h' (f b) Q := by
  show Meets c h (p.bind f) Q ↔ _
  induction p generalizing h with
  | ret b => exact Iff.rfl
  | call e k ih =>
      exact and_congr_right fun _ => forall_congr' fun r => imp_congr_right fun _ => ih r
  | panic => exact Iff.rfl

/-- Sequencing after a program with a known contract. -/
theorem Meets.bind {p : Prog Ans β} {f : β → Prog Ans α} {R : History Ans → β → Prop}
    (hp : Meets c h p R) (hf : ∀ h' b, h <+: h' → R h' b → Meets c h' (f b) Q) :
    Meets c h (p >>= f) Q :=
  meets_bind.mpr (hp.mono hf)

/-- **Branching**: each branch meets the contract under its condition. -/
theorem Meets.ite {b : Prop} [Decidable b] {p q : Prog Ans α} (hp : b → Meets c h p Q)
    (hq : ¬ b → Meets c h q Q) : Meets c h (if b then p else q) Q := by
  by_cases hb : b
  · rw [if_pos hb]
    exact hp hb
  · rw [if_neg hb]
    exact hq hb

/-- Two postconditions hold together. -/
theorem Meets.and {p : Prog Ans α} (hp : Meets c h p Q) (hp' : Meets c h p Q') :
    Meets c h p fun h' a => Q h' a ∧ Q' h' a := by
  induction p generalizing h with
  | ret a => exact ⟨hp, hp'⟩
  | call e k ih => exact ⟨hp.1, fun r hr => ih r (hp.2 r hr) (hp'.2 r hr)⟩
  | panic => exact hp

/-- What the first program does stays in the history. -/
theorem Meets.mem_of_bind {p : Prog Ans β} {f : β → Prog Ans α} {ev : Event Ans}
    (hpf : Meets c h (p >>= f) Q) (hp : Meets c h p fun h' _ => ev ∈ h') :
    Meets c h (p >>= f) fun h' _ => ev ∈ h' := by
  refine meets_bind.mpr (((meets_bind.mp hpf).and hp).mono fun h' b _ ⟨hf, hev⟩ => ?_)
  exact hf.mono fun h'' a hpre _ => hpre.subset hev

/-- **A list of programs, one after the other**, with an invariant `J` of the results so far,
the elements still to come and the history. -/
theorem meets_mapM_acc {f : γ → Prog Ans β} {J : List β → List γ → History Ans → Prop}
    {l : List γ} (bs : List β)
    (hf : ∀ bs x xs h', J bs (x :: xs) h' →
      Meets c h' (f x) fun h'' b => J (bs ++ [b]) xs h'')
    (hJ : J bs l h) :
    Meets c h (l.mapM f) fun h' bs' => J (bs ++ bs') [] h' := by
  induction l generalizing h bs with
  | nil =>
      rw [List.mapM_nil, meets_pure, List.append_nil]
      exact hJ
  | cons x xs ih =>
      rw [List.mapM_cons]
      refine (hf bs x xs h hJ).bind fun h₁ b _ hJ₁ => ?_
      refine (ih (bs ++ [b]) hJ₁).bind fun h₂ bs' _ hJ₂ => ?_
      rw [List.append_assoc] at hJ₂
      exact hJ₂

/-- A list of programs when the invariant does not look at the results: each element is
related to its own. -/
theorem meets_mapM {f : γ → Prog Ans β} {J : List γ → History Ans → Prop}
    {P : γ → β → Prop} {l : List γ}
    (hf : ∀ x xs h', J (x :: xs) h' → Meets c h' (f x) fun h'' b => J xs h'' ∧ P x b)
    (hJ : J l h) :
    Meets c h (l.mapM f) fun h' bs => J [] h' ∧ List.Forall₂ P l bs := by
  refine (meets_mapM_acc (J := fun bs xs h' => J xs h' ∧ ∃ ys, l = ys ++ xs ∧
    List.Forall₂ P ys bs) [] ?_ ⟨hJ, [], rfl, .nil⟩).mono ?_
  · rintro bs x xs h' ⟨hJ', ys, rfl, hbs⟩
    refine (hf x xs h' hJ').mono fun h'' b _ ⟨hJ'', hb⟩ => ⟨hJ'', ys ++ [x], ?_, ?_⟩
    · rw [List.append_assoc, List.singleton_append]
    · exact List.rel_append hbs (.cons hb .nil)
  · rintro h' bs _ ⟨hJ', ys, hl, hbs⟩
    rw [List.append_nil] at hl
    exact ⟨hJ', hl ▸ hbs⟩

/-- A list of programs each of which meets its own postcondition, whatever came before. -/
theorem meets_mapM_of_forall {f : γ → Prog Ans β} {P : γ → β → Prop} {l : List γ}
    (hf : ∀ x ∈ l, ∀ h', Meets c h' (f x) fun _ b => P x b) :
    Meets c h (l.mapM f) fun _ bs => List.Forall₂ P l bs := by
  refine (meets_mapM (J := fun xs _ => ∀ x ∈ xs, x ∈ l) (P := P) ?_ fun x hx => hx).mono ?_
  · intro x xs h' hsub
    refine (hf x (hsub x List.mem_cons_self) h').mono fun _ b _ hb => ⟨?_, hb⟩
    exact fun y hy => hsub y (List.mem_cons_of_mem _ hy)
  · rintro h' bs - ⟨-, hbs⟩
    exact hbs

/-- A stronger rely and a weaker guarantee keep a contract. -/
theorem Meets.weaken {c' : Contract Ans} {p : Prog Ans α} (hp : Meets c h p Q)
    (hrely : ∀ h e r, c'.rely h e r → c.rely h e r)
    (hguar : ∀ h e, c.guarantee h e → c'.guarantee h e)
    (hpanic : c.mayPanic → c'.mayPanic) : Meets c' h p Q := by
  induction p generalizing h with
  | ret a => exact hp
  | call e k ih => exact ⟨hguar h e hp.1, fun r hr => ih r (hp.2 r (hrely h e r hr))⟩
  | panic => exact hpanic hp

/-- **Soundness of the guarantee**: an effect of a run meets the guarantee as soon as the
answers before it respect the rely. -/
theorem Meets.effect {p : Prog Ans α} (hp : Meets c h p Q) {t : History Ans} {o : Option α}
    (hrun : p.Runs t o) {pre post : History Ans} {ev : Event Ans} (ht : t = pre ++ ev :: post)
    (hpre : Respects c.rely h pre) : c.guarantee (h ++ pre) ev.1 := by
  induction hrun generalizing h pre with
  | ret a => simp at ht
  | @call e k r t o _ ih =>
      cases pre with
      | nil =>
          obtain ⟨rfl, -⟩ := List.cons.inj ht
          simpa using hp.1
      | cons ev' pre =>
          obtain ⟨rfl, rfl⟩ := List.cons.inj ht
          simpa using ih (hp.2 r hpre.1) rfl hpre.2
  | panic => simp at ht

/-- **Soundness of the postcondition**: a run whose answers respect the rely ends in a
result with the postcondition, or in a panic the contract allows. -/
theorem Meets.result {p : Prog Ans α} (hp : Meets c h p Q) {t : History Ans} {o : Option α}
    (hrun : p.Runs t o) (ht : Respects c.rely h t) :
    (∃ a, o = some a ∧ Q (h ++ t) a) ∨ (o = none ∧ c.mayPanic) := by
  induction hrun generalizing h with
  | ret a => exact .inl ⟨a, rfl, by simpa using hp⟩
  | @call e k r t o _ ih => simpa using ih (hp.2 r ht.1) ht.2
  | panic => exact .inr ⟨rfl, hp⟩

/-! ### Contracts for results alone -/

/-- The contract that looks at single answers, promises nothing about effects, and excludes
a panic. -/
def Contract.under (rely : ∀ e, Ans e → Prop) : Contract Ans where
  rely _ := rely
  guarantee _ _ := True
  mayPanic := False

/-- **What every run ends with**, under a rely on single answers. -/
theorem Meets.ends {rely : ∀ e, Ans e → Prop} {p : Prog Ans α} {Q : History Ans → α → Prop}
    (hp : Meets (.under rely) [] p Q) {t : History Ans} {o : Option α} (hrun : p.Runs t o)
    (ht : ∀ ev ∈ t, rely ev.1 ev.2) : ∃ a, o = some a ∧ Q t a := by
  obtain ⟨a, ho, ha⟩ | ⟨-, hpanic⟩ := hp.result hrun (respects_of_forall ht [])
  · exact ⟨a, ho, ha⟩
  · exact hpanic.elim

/-- **What some run ends with**: when each effect has an answer the rely admits. -/
theorem Meets.exists_ends {rely : ∀ e, Ans e → Prop} (htotal : ∀ e, ∃ r, rely e r)
    {p : Prog Ans α} {Q : History Ans → α → Prop} (hp : Meets (.under rely) [] p Q) :
    ∃ t a, p.Runs t (some a) ∧ (∀ ev ∈ t, rely ev.1 ev.2) ∧ Q t a := by
  obtain ⟨t, o, hrun, hresp⟩ := exists_run (fun _ => htotal) [] p
  have ht := forall_of_respects hresp
  obtain ⟨a, rfl, ha⟩ := hp.ends hrun ht
  exact ⟨t, a, hrun, ht, ha⟩

/-! ### Counting effects -/

/-- The total weight of the effects of a history. -/
def cost (w : E → ℕ) (t : History Ans) : ℕ := (t.map fun ev => w ev.1).sum

@[simp] theorem cost_nil (w : E → ℕ) : cost w ([] : History Ans) = 0 := rfl

@[simp] theorem cost_append (w : E → ℕ) (t t' : History Ans) :
    cost w (t ++ t') = cost w t + cost w t' := by
  simp [cost]

@[simp] theorem cost_singleton (w : E → ℕ) (ev : Event Ans) : cost w [ev] = w ev.1 := by
  simp [cost]

section Costs

/-- From the history `h`, the program adds at most `n` to the cost in every run that
satisfies `B`, and its result satisfies `Q` in every run. -/
def Costs (c : Contract Ans) (B : History Ans → Prop) (w : E → ℕ) (h : History Ans)
    (p : Prog Ans α) (n : ℕ) (Q : History Ans → α → Prop) : Prop :=
  Meets c h p fun h' a => (B h' → cost w h' ≤ cost w h + n) ∧ Q h' a

variable {B : History Ans → Prop} {w : E → ℕ} {n m : ℕ}

theorem costs_pure {a : α} (ha : Q h a) : Costs c B w h (pure a) n Q :=
  ⟨fun _ => Nat.le_add_right _ _, ha⟩

/-- Forget the cost. -/
theorem Costs.meets {p : Prog Ans α} (hp : Costs c B w h p n Q) : Meets c h p Q :=
  Meets.mono hp fun _ _ _ ⟨_, ha⟩ => ha

theorem costs_panic (hpanic : c.mayPanic) : Costs c B w h (.panic : Prog Ans α) n Q := hpanic

/-- Branching costs what the branch costs. -/
theorem Costs.ite {b : Prop} [Decidable b] {p q : Prog Ans α} (hp : b → Costs c B w h p n Q)
    (hq : ¬ b → Costs c B w h q n Q) : Costs c B w h (if b then p else q) n Q :=
  Meets.ite hp hq

/-- One effect, then the rest. -/
theorem Costs.call {e : E} {k : Ans e → Prog Ans α} (hg : c.guarantee h e)
    (hk : ∀ r, c.rely h e r → Costs c B w (h ++ [⟨e, r⟩]) (k r) m Q) (ht : w e + m ≤ n) :
    Costs c B w h (.call e k) n Q := by
  refine ⟨hg, fun r hr => (hk r hr).mono fun h' a _ ⟨hcost, ha⟩ => ⟨fun hb => ?_, ha⟩⟩
  have := hcost hb
  simp only [cost_append, cost_singleton] at this
  omega

variable (hB : ∀ {h h' : History Ans}, h <+: h' → B h' → B h)
include hB

/-- A larger bound, which may use the side condition on the run so far. -/
theorem Costs.mono {p : Prog Ans α} (hp : Costs c B w h p n Q) (hnm : B h → n ≤ m)
    (hQ : ∀ h' a, h <+: h' → Q h' a → Q' h' a) : Costs c B w h p m Q' :=
  Meets.mono hp fun h' a hpre ⟨hcost, ha⟩ =>
    ⟨fun hb => (hcost hb).trans (Nat.add_le_add_left (hnm (hB hpre hb)) _), hQ h' a hpre ha⟩

/-- Costs add up along sequencing. -/
theorem Costs.bind {p : Prog Ans β} {f : β → Prog Ans α} {R : History Ans → β → Prop}
    {t : ℕ} (hp : Costs c B w h p n R)
    (hf : ∀ h' b, h <+: h' → R h' b → Costs c B w h' (f b) m Q) (ht : n + m ≤ t) :
    Costs c B w h (p >>= f) t Q := by
  refine Meets.bind hp fun h₁ b hpre ⟨hcost, hb⟩ => ?_
  refine Meets.mono (hf h₁ b hpre hb) fun h₂ a hpre₂ ⟨hcost₂, ha⟩ => ⟨fun hb₂ => ?_, ha⟩
  have := hcost (hB hpre₂ hb₂)
  have := hcost₂ hb₂
  omega

/-- A list of programs costs at most its length times the cost of one. -/
theorem costs_mapM {f : γ → Prog Ans β} {R : γ → β → Prop} {l : List γ}
    (hf : ∀ h' x, x ∈ l → Costs c B w h' (f x) n fun _ b => R x b) :
    Costs c B w h (l.mapM f) (l.length * n) fun _ bs => List.Forall₂ R l bs := by
  induction l generalizing h with
  | nil => exact costs_pure .nil
  | cons x xs ih =>
      have hlen : n + (xs.length * n + 0) ≤ (x :: xs).length * n := by
        rw [List.length_cons]
        exact le_of_eq (by ring)
      rw [List.mapM_cons]
      refine (hf h x List.mem_cons_self).bind hB (fun h₁ b _ hb => ?_) hlen
      refine (ih fun h' y hy => hf h' y (List.mem_cons_of_mem _ hy)).bind hB
        (fun h₂ bs _ hbs => ?_) (le_refl _)
      exact costs_pure (.cons hb hbs)

end Costs

end Prog

end Program
