import ZingCdn.Library.Program
import ZingCdn.Library.Transition

/-!
# Programs Interleaved over a Shared State

A pool runs any number of programs over one shared state, one effect of one task at a
time; new tasks may start at any point. The shared state answers the effects through a
relation, so that it may be nondeterministic.

The rule is rely and guarantee: when every effect that a task's contract admits keeps an
invariant of the shared state and is answered as the contract relies on, each task keeps
its contract whatever the other tasks do, and the invariant holds throughout.

## Main results

* `Pool.rely_guarantee`: the rule, for every reachable pool.
* `Pool.Reachable.runs`: the history of each task is that of a run of its program alone.
* `Pool.Reachable.of_runs`: a run that the shared state answers is that of a task.
-/

namespace Program

open Prog

variable {E : Type} {Ans : E → Type} {σ τ α : Type}

/-- A task: what it is for, what it has done so far, and what it has left to do. -/
structure Task (Ans : E → Type) (τ α : Type) where
  tag : τ
  history : History Ans
  rest : Prog Ans α

/-- Tasks over a shared state. -/
structure Pool (Ans : E → Type) (σ τ α : Type) where
  shared : σ
  tasks : List (Task Ans τ α)

namespace Pool

/-- One step: a task starts, or a task performs its next effect. -/
inductive Step (perform : σ → (e : E) → Ans e → σ → Prop) (start : τ → Prog Ans α) :
    Pool Ans σ τ α → Pool Ans σ τ α → Prop
  | start (s : σ) (tasks : List (Task Ans τ α)) (tag : τ) :
      Step perform start ⟨s, tasks⟩ ⟨s, ⟨tag, [], start tag⟩ :: tasks⟩
  | act {s s' : σ} {pre post : List (Task Ans τ α)} {tag : τ} {h : History Ans} {e : E}
      {k : Ans e → Prog Ans α} (r : Ans e) :
      perform s e r s' →
        Step perform start ⟨s, pre ++ ⟨tag, h, .call e k⟩ :: post⟩
          ⟨s', pre ++ ⟨tag, h ++ [⟨e, r⟩], k r⟩ :: post⟩

/-- The first task of a pool performs its next effect. -/
theorem Step.first {perform : σ → (e : E) → Ans e → σ → Prop} {start : τ → Prog Ans α}
    {s s' : σ} {others : List (Task Ans τ α)} {tag : τ} {h : History Ans} {e : E}
    {k : Ans e → Prog Ans α} (r : Ans e) (hperform : perform s e r s') :
    Step perform start ⟨s, ⟨tag, h, .call e k⟩ :: others⟩
      ⟨s', ⟨tag, h ++ [⟨e, r⟩], k r⟩ :: others⟩ :=
  @Step.act E Ans σ τ α perform start s s' [] others tag h e k r hperform

/-- The pools some run ends in, from no tasks and a shared state in `init`. -/
def Reachable (init : σ → Prop) (perform : σ → (e : E) → Ans e → σ → Prop)
    (start : τ → Prog Ans α) : Pool Ans σ τ α → Prop :=
  Transition.Reachable (fun pool => init pool.shared ∧ pool.tasks = []) (Step perform start)

/-- The shared state satisfies the invariant and each task still meets its contract. -/
def Sound (inv : σ → Prop) (c : τ → Contract Ans) (Q : τ → History Ans → α → Prop)
    (pool : Pool Ans σ τ α) : Prop :=
  inv pool.shared ∧
    ∀ task ∈ pool.tasks, Meets (c task.tag) task.history task.rest (Q task.tag)

variable {init inv : σ → Prop} {perform : σ → (e : E) → Ans e → σ → Prop}
  {start : τ → Prog Ans α} {c : τ → Contract Ans} {Q : τ → History Ans → α → Prop}

/-- One step keeps every contract and the invariant. -/
theorem Sound.step (hstart : ∀ tag, Meets (c tag) [] (start tag) (Q tag))
    (hact : ∀ tag h s e r s', inv s → (c tag).guarantee h e → perform s e r s' →
      inv s' ∧ (c tag).rely h e r)
    {pool pool' : Pool Ans σ τ α} (hpool : Sound inv c Q pool)
    (hs : Step perform start pool pool') : Sound inv c Q pool' := by
  obtain ⟨hinv, htasks⟩ := hpool
  cases hs with
  | start s tasks tag =>
      refine ⟨hinv, fun task hmem => ?_⟩
      rcases List.mem_cons.mp hmem with rfl | hmem
      · exact hstart tag
      · exact htasks task hmem
  | @act s s' pre post tag h e k r hperform =>
      obtain ⟨hguarantee, hrest⟩ := htasks ⟨tag, h, .call e k⟩ (by simp)
      obtain ⟨hinv', hrely⟩ := hact tag h s e r s' hinv hguarantee hperform
      refine ⟨hinv', fun task hmem => ?_⟩
      rcases List.mem_append.mp hmem with hmem | hmem
      · exact htasks task (List.mem_append_left _ hmem)
      · rcases List.mem_cons.mp hmem with rfl | hmem
        · exact hrest r hrely
        · exact htasks task (List.mem_append_right _ (List.mem_cons_of_mem _ hmem))

/-- **Rely and guarantee**: in every reachable pool the invariant holds and each task
meets its contract. -/
theorem rely_guarantee (inv : σ → Prop) (c : τ → Contract Ans)
    (Q : τ → History Ans → α → Prop) (hinit : ∀ s, init s → inv s)
    (hstart : ∀ tag, Meets (c tag) [] (start tag) (Q tag))
    (hact : ∀ tag h s e r s', inv s → (c tag).guarantee h e → perform s e r s' →
      inv s' ∧ (c tag).rely h e r)
    {pool : Pool Ans σ τ α} (hreach : Reachable init perform start pool) :
    Sound inv c Q pool := by
  refine Transition.Reachable.invariant (Sound inv c Q) ?_ ?_ hreach
  · rintro pool₀ ⟨hshared, hnone⟩
    exact ⟨hinit _ hshared, by simp [hnone]⟩
  · intro pool₁ pool₂ hpool hs
    exact hpool.step hstart hact hs

/-! ### Tasks and their runs -/

/-- **Every task runs its program**: what it has done so far, followed by a run of what is
left, is a run from the start, whatever the other tasks do. -/
theorem Reachable.runs {pool : Pool Ans σ τ α} (hreach : Reachable init perform start pool)
    {task : Task Ans τ α} (htask : task ∈ pool.tasks) {t : History Ans} {o : Option α}
    (hrun : task.rest.Runs t o) : (start task.tag).Runs (task.history ++ t) o := by
  refine Transition.Reachable.invariant (fun pool => ∀ task ∈ pool.tasks, ∀ t o,
    task.rest.Runs t o → (start task.tag).Runs (task.history ++ t) o) ?_ ?_ hreach task htask t o
    hrun
  · rintro pool₀ ⟨-, hnone⟩
    simp [hnone]
  · rintro _ _ hpool (⟨s, tasks, tag⟩ | @⟨s, s', pre, post, tag, h, e, k, r, -⟩) task hmem t o hrun
    · rcases List.mem_cons.mp hmem with rfl | hmem
      · exact hrun
      · exact hpool task hmem t o hrun
    · rcases List.mem_append.mp hmem with hmem | hmem
      · exact hpool task (List.mem_append_left _ hmem) t o hrun
      · rcases List.mem_cons.mp hmem with rfl | hmem
        · have := hpool ⟨tag, h, .call e k⟩ (by simp) _ o (.call r hrun)
          simpa using this
        · exact hpool task (List.mem_append_right _ (List.mem_cons_of_mem _ hmem)) t o hrun

/-- The shared state answers a history, event by event. -/
inductive Follows (perform : σ → (e : E) → Ans e → σ → Prop) : σ → History Ans → σ → Prop
  | nil (s : σ) : Follows perform s [] s
  | cons {s s' s'' : σ} {e : E} {r : Ans e} {t : History Ans} :
      perform s e r s' → Follows perform s' t s'' → Follows perform s (⟨e, r⟩ :: t) s''

/-- A shared state that can answer every event answers every history. -/
theorem Follows.of_next {next : σ → Event Ans → σ}
    (hnext : ∀ s ev, perform s ev.1 ev.2 (next s ev)) (s : σ) (t : History Ans) :
    Follows perform s t (t.foldl next s) := by
  induction t generalizing s with
  | nil => exact .nil s
  | cons ev t ih => exact .cons (hnext s ev) (ih (next s ev))

/-- A shared state that allows every answer, and stays as it is, answers every history. -/
theorem Follows.of_allows {s : σ} (hallows : ∀ e r, perform s e r s) (t : History Ans) :
    Follows perform s t s := by
  induction t with
  | nil => exact .nil s
  | cons ev t ih => exact .cons (hallows ev.1 ev.2) ih

/-- An environment that answers as a shared state does, which it tracks by the history. -/
theorem follows_exec {env : History Ans → ∀ e, Ans e} {state : History Ans → σ}
    (henv : ∀ h e, perform (state h) e (env h e) (state (h ++ [⟨e, env h e⟩])))
    (h : History Ans) (p : Prog Ans α) :
    Follows perform (state h) (exec env h p).1 (state (h ++ (exec env h p).1)) := by
  induction p generalizing h with
  | ret a => simpa [exec] using Follows.nil (state h)
  | call e k ih =>
      have hrest := ih (env h e) (h ++ [⟨e, env h e⟩])
      rw [List.append_assoc] at hrest
      exact .cons (henv h e) hrest
  | panic => simpa [exec] using Follows.nil (state h)

/-- **A task runs on its own**: it performs a first part of a run of its program while the
others wait, when the shared state answers that part. -/
theorem exists_run_alone {s s' : σ} {t t' : History Ans} (hfollows : Follows perform s t s')
    {o : Option α} {p : Prog Ans α} (hrun : p.Runs (t ++ t') o) (tag : τ) (h : History Ans)
    (others : List (Task Ans τ α)) :
    ∃ rest : Prog Ans α, rest.Runs t' o ∧
      Relation.ReflTransGen (Step perform start) ⟨s, ⟨tag, h, p⟩ :: others⟩
        ⟨s', ⟨tag, h ++ t, rest⟩ :: others⟩ := by
  induction hfollows generalizing p h with
  | nil s => exact ⟨p, hrun, by simpa using Relation.ReflTransGen.refl⟩
  | @cons s s' s'' e r t hperform _ ih =>
      cases hrun with
      | call r hrun =>
          obtain ⟨rest, hrest, hsteps⟩ := ih hrun (h ++ [⟨e, r⟩])
          exact ⟨rest, hrest, .head (Step.first r hperform) (by simpa using hsteps)⟩

/-- A run of one task is reachable when the shared state answers it. -/
theorem Reachable.of_runs {s s' : σ} (hs : init s) {tag : τ} {t : History Ans}
    (hfollows : Follows perform s t s') {a : α} (hrun : (start tag).Runs t (some a)) :
    Reachable init perform start ⟨s', [⟨tag, t, .ret a⟩]⟩ := by
  rw [← List.append_nil t] at hrun
  obtain ⟨rest, hrest, hsteps⟩ := exists_run_alone hfollows hrun tag [] []
  have hinit : Reachable init perform start ⟨s, []⟩ := Transition.Reachable.of_init ⟨hs, rfl⟩
  cases hrest with
  | ret => exact (hinit.snoc (.start s [] tag)).run hsteps

end Pool

end Program
