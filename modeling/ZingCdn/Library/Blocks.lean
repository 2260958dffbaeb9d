import ZingCdn.Library.Interleaving

/-!
# Programs Built from Blocks

A program that is made of some effects and of whole subprograms, in any order and with any
branching between them. What a contract asks of such a program it asks of the effects and of
the subprograms alone, so that one fact about a block is a fact about every program built with
it. The history is not mentioned, so a program is built by the shape of its definition.

Over a shared state, `Pool.Reachable.seen` is the rule for facts that an effect's answer brings
and that the shared state never takes back.

## Main results

* `Built.meets`: a contract of the effects and of the blocks is one of the program.
* `Built.bind`, `built_mapM`: sequencing, and one program for each element of a list.
* `Pool.Reachable.seen`: what the answers of all tasks have brought.
-/

namespace Program

namespace Prog

variable {E : Type} {Ans : E → Type} {α β γ : Type}

/-- The program is built from effects in `A` and from blocks in `B`. -/
inductive Built (A : E → Prop) (B : ∀ β : Type, Prog Ans β → Prop) : Prog Ans α → Prop
  | ret (a : α) : Built A B (.ret a)
  | panic : Built A B .panic
  | call {e : E} {k : Ans e → Prog Ans α} : A e → (∀ r, Built A B (k r)) → Built A B (.call e k)
  | block {β : Type} {p : Prog Ans β} {f : β → Prog Ans α} :
      B β p → (∀ b, Built A B (f b)) → Built A B (p >>= f)

variable {A : E → Prop} {B : ∀ β : Type, Prog Ans β → Prop}

theorem built_pure (a : α) : Built A B (pure a : Prog Ans α) := .ret a

theorem built_perform {e : E} (he : A e) : Built A B (perform e : Prog Ans (Ans e)) :=
  .call he fun r => .ret r

/-- A block. -/
theorem Built.of_block {p : Prog Ans α} (hp : B α p) : Built A B p := by
  rw [← bind_pure p]
  exact .block hp fun a => .ret a

/-- Sequencing. -/
theorem Built.bind {p : Prog Ans β} {f : β → Prog Ans α} (hp : Built A B p)
    (hf : ∀ b, Built A B (f b)) : Built A B (p >>= f) := by
  induction hp with
  | ret b => exact hf b
  | panic => exact .panic
  | call he _ ih => exact .call he ih
  | block hblock _ ih =>
      rw [bind_assoc]
      exact .block hblock ih

theorem Built.ite {b : Prop} [Decidable b] {p q : Prog Ans α} (hp : Built A B p)
    (hq : Built A B q) : Built A B (if b then p else q) := by
  split
  · exact hp
  · exact hq

/-- One program for each element of a list. -/
theorem built_mapM {f : γ → Prog Ans α} (hf : ∀ x, Built A B (f x)) (l : List γ) :
    Built A B (l.mapM f) := by
  induction l with
  | nil => exact .ret []
  | cons x rest ih =>
      rw [List.mapM_cons]
      exact (hf x).bind fun _ => ih.bind fun _ => built_pure _

/-- **The rule for blocks**: a contract that allows the effects and that every block meets. -/
theorem Built.meets {c : Contract Ans} (hA : ∀ h e, A e → c.guarantee h e)
    (hB : ∀ (β : Type) (p : Prog Ans β), B β p → ∀ h, Meets c h p fun _ _ => True)
    (hpanic : c.mayPanic) {p : Prog Ans α} (hp : Built A B p) (h : History Ans) :
    Meets c h p fun _ _ => True := by
  induction hp generalizing h with
  | ret => trivial
  | panic => exact hpanic
  | call he _ ih => exact ⟨hA h _ he, fun r _ => ih r _⟩
  | block hblock _ ih => exact (hB _ _ hblock h).bind fun h' b _ _ => ih b h'

end Prog

namespace Pool

open Prog

variable {E : Type} {Ans : E → Type} {σ τ α : Type} {init : σ → Prop}
  {perform : σ → (e : E) → Ans e → σ → Prop} {start : τ → Prog Ans α}

/-- **What the answers have brought**: a fact about each event of each task, that the shared
state gives with the answer and never takes back. -/
theorem Reachable.seen (inv : σ → Prop) (c : Contract Ans) (seen : σ → Event Ans → Prop)
    (hinit : ∀ s, init s → inv s) (hstart : ∀ tag, Meets c [] (start tag) fun _ _ => True)
    (hrely : ∀ h e r, c.rely h e r)
    (hact : ∀ h s e r s', inv s → (∀ ev ∈ h, seen s ev) → c.guarantee h e → perform s e r s' →
      inv s' ∧ seen s' ⟨e, r⟩)
    (hkeep : ∀ s e r s' ev, inv s → perform s e r s' → seen s ev → seen s' ev)
    {pool : Pool Ans σ τ α} (hreach : Reachable init perform start pool) :
    inv pool.shared ∧ ∀ task ∈ pool.tasks, ∀ ev ∈ task.history, seen pool.shared ev := by
  suffices hall : inv pool.shared ∧ ∀ task ∈ pool.tasks,
      Meets c task.history task.rest (fun _ _ => True) ∧
        ∀ ev ∈ task.history, seen pool.shared ev from
    ⟨hall.1, fun task htask => (hall.2 task htask).2⟩
  refine Transition.Reachable.invariant (fun pool : Pool Ans σ τ α => inv pool.shared ∧
    ∀ task ∈ pool.tasks, Meets c task.history task.rest (fun _ _ => True) ∧
      ∀ ev ∈ task.history, seen pool.shared ev) ?_ ?_ hreach
  · rintro pool₀ ⟨hshared, hnone⟩
    exact ⟨hinit _ hshared, by simp [hnone]⟩
  · rintro _ _ ⟨hinv, htasks⟩ (⟨s, tasks, tag⟩ | @⟨s, s', pre, post, tag, h, e, k, r, hperform⟩)
    · refine ⟨hinv, fun task hmem => ?_⟩
      rcases List.mem_cons.mp hmem with rfl | hmem
      · exact ⟨hstart tag, by simp⟩
      · exact htasks task hmem
    · obtain ⟨⟨hguarantee, hrest⟩, hseen⟩ := htasks ⟨tag, h, .call e k⟩ (by simp)
      obtain ⟨hinv', hnew⟩ := hact h s e r s' hinv hseen hguarantee hperform
      -- the other tasks keep their histories
      have hother : ∀ task ∈ pre ++ post, Meets c task.history task.rest (fun _ _ => True) ∧
          ∀ ev ∈ task.history, seen s' ev := by
        intro task hmem
        have htask : task ∈ pre ++ ⟨tag, h, .call e k⟩ :: post := by
          simp only [List.mem_append, List.mem_cons] at hmem ⊢
          exact hmem.imp_right .inr
        obtain ⟨hmeets, hevents⟩ := htasks task htask
        exact ⟨hmeets, fun ev hev => hkeep s e r s' ev hinv hperform (hevents ev hev)⟩
      refine ⟨hinv', fun task hmem => ?_⟩
      rcases List.mem_append.mp hmem with hmem | hmem
      · exact hother task (List.mem_append_left _ hmem)
      · rcases List.mem_cons.mp hmem with rfl | hmem
        · refine ⟨hrest r (hrely h e r), fun ev hev => ?_⟩
          rcases List.mem_append.mp hev with hev | hev
          · exact hkeep s e r s' ev hinv hperform (hseen ev hev)
          · obtain rfl := List.mem_singleton.mp hev
            exact hnew
        · exact hother task (List.mem_append_right _ hmem)

/-- **Every effect of every task** meets the guarantee, on the history of the task before it. -/
theorem Reachable.guarantee {c : Contract Ans}
    (hstart : ∀ tag, Meets c [] (start tag) fun _ _ => True) (hrely : ∀ h e r, c.rely h e r)
    (hans : ∀ e, Nonempty (Ans e)) {pool : Pool Ans σ τ α}
    (hreach : Reachable init perform start pool) {task : Task Ans τ α} (htask : task ∈ pool.tasks)
    {before after : History Ans} {ev : Event Ans} (hhistory : task.history = before ++ ev :: after) :
    c.guarantee before ev.1 := by
  have hany : ∀ (h : History Ans) (e : E), ∃ r : Ans e, (fun _ _ _ => True :
      History Ans → ∀ e, Ans e → Prop) h e r := fun _ e => ⟨Classical.choice (hans e), trivial⟩
  obtain ⟨t, o, hrun, -⟩ := exists_run hany [] task.rest
  have hfull := Reachable.runs hreach htask hrun
  have hrespects : ∀ (h t : History Ans), Respects c.rely h t := by
    intro h t
    induction t generalizing h with
    | nil => trivial
    | cons ev t ih => exact ⟨hrely _ _ _, ih _⟩
  have hsplit : task.history ++ t = before ++ ev :: (after ++ t) := by
    rw [hhistory, List.append_assoc, List.cons_append]
  simpa using (hstart task.tag).effect hfull hsplit (hrespects _ _)

end Pool

end Program
