import Mathlib.Logic.Function.Basic
import Mathlib.Data.List.Induction

/-!
# What a History Last Said

A history of events, some of which give a key a value. `latest` is the value that each key was
given last. It is what a map holds that is written along the history and never erased.

## Main results

* `latest_snoc`: one more event.
* `latest_eq_none_iff`: no event gave a value.
* `latest_eq_some_iff`: the event that gave the value, and none after it that gives another.
-/

namespace Latest

variable {M K V : Type*} [DecidableEq K] (entry : M → Option (K × V))

/-- What is known of each key after one more event. -/
def learn (known : K → Option V) (event : M) : K → Option V :=
  match entry event with
  | none => known
  | some (k, v) => Function.update known k (some v)

/-- The value that each key was given last. -/
def latest (history : List M) : K → Option V := history.foldl (learn entry) fun _ => none

/-- Nothing has happened. -/
@[simp] theorem latest_nil : latest entry [] = fun _ => none := rfl

/-- One more event. -/
theorem latest_snoc (history : List M) (event : M) :
    latest entry (history ++ [event]) = learn entry (latest entry history) event := by
  rw [latest, List.foldl_append]
  rfl

variable {entry} {known : K → Option V} {history : List M} {event : M} {k k' : K} {v : V}

/-- An event without an entry teaches nothing. -/
theorem learn_of_none (h : entry event = none) : learn entry known event = known := by
  rw [learn, h]

/-- An event with an entry replaces what is known of its key. -/
theorem learn_of_some (h : entry event = some (k, v)) :
    learn entry known event = Function.update known k (some v) := by
  rw [learn, h]

/-- An event that is not about a key. -/
theorem learn_of_ne (h : ∀ v, entry event ≠ some (k, v)) : learn entry known event k = known k := by
  rw [learn]
  rcases hentry : entry event with _ | ⟨k', v⟩
  · rfl
  · refine Function.update_of_ne (fun heq => h v ?_) _ _
    rw [hentry, heq]

/-- A key that has a value keeps one. -/
theorem learn_isSome (h : (known k).isSome) : (learn entry known event k).isSome := by
  by_cases habout : ∃ v, entry event = some (k, v)
  · obtain ⟨v, hentry⟩ := habout
    rw [learn_of_some hentry, Function.update_self]
    rfl
  · rw [learn_of_ne fun v hentry => habout ⟨v, hentry⟩]
    exact h

/-- What is known stays known. -/
theorem latest_append_isSome (h : (latest entry history k).isSome) (more : List M) :
    (latest entry (history ++ more) k).isSome := by
  induction more using List.reverseRecOn with
  | nil =>
      rw [List.append_nil]
      exact h
  | append_singleton more event ih =>
      rw [← List.append_assoc, latest_snoc]
      exact learn_isSome ih

/-- A key that was given no value. -/
theorem latest_eq_none_iff : latest entry history k = none ↔
    ∀ event ∈ history, ∀ v, entry event ≠ some (k, v) := by
  induction history using List.reverseRecOn with
  | nil => simp
  | append_singleton history event ih =>
      rw [latest_snoc]
      by_cases habout : ∃ v, entry event = some (k, v)
      · obtain ⟨v, hentry⟩ := habout
        rw [learn_of_some hentry, Function.update_self]
        exact ⟨(nomatch ·), fun h => absurd hentry (h event (by simp) v)⟩
      · have hnot : ∀ v, entry event ≠ some (k, v) := fun v h => habout ⟨v, h⟩
        rw [learn_of_ne hnot, ih]
        simp [or_imp, forall_and, hnot]

/-- **The event that gave the value**, and none after it that gives another. -/
theorem latest_eq_some_iff : latest entry history k = some v ↔
    ∃ before event after, history = before ++ event :: after ∧ entry event = some (k, v) ∧
      ∀ later ∈ after, ∀ v', entry later ≠ some (k, v') := by
  induction history using List.reverseRecOn with
  | nil => simp
  | append_singleton history event ih =>
      rw [latest_snoc]
      by_cases habout : ∃ v', entry event = some (k, v')
      · obtain ⟨v', hentry⟩ := habout
        rw [learn_of_some hentry, Function.update_self, Option.some.injEq]
        constructor
        · rintro rfl
          exact ⟨history, event, [], rfl, hentry, by simp⟩
        · rintro ⟨before, event', after, hsplit, hentry', hafter⟩
          rcases List.eq_nil_or_concat after with rfl | ⟨after, last, rfl⟩
          · obtain ⟨-, heq⟩ := List.append_inj' hsplit rfl
            obtain rfl := List.singleton_inj.mp heq
            rw [hentry, Option.some.injEq] at hentry'
            exact (Prod.mk.inj hentry').2
          · rw [List.concat_eq_append, ← List.cons_append, ← List.append_assoc] at hsplit
            obtain ⟨-, heq⟩ := List.append_inj' hsplit rfl
            obtain rfl := List.singleton_inj.mp heq
            exact absurd hentry (hafter event (by simp) v')
      · have hnot : ∀ v', entry event ≠ some (k, v') := fun v' h => habout ⟨v', h⟩
        rw [learn_of_ne hnot, ih]
        constructor
        · rintro ⟨before, event', after, rfl, hentry, hafter⟩
          refine ⟨before, event', after ++ [event], by simp, hentry, fun later hlater => ?_⟩
          rcases List.mem_append.mp hlater with hlater | hlater
          · exact hafter later hlater
          · obtain rfl := List.mem_singleton.mp hlater
            exact hnot
        · rintro ⟨before, event', after, hsplit, hentry, hafter⟩
          rcases List.eq_nil_or_concat after with rfl | ⟨after, last, rfl⟩
          · obtain ⟨-, heq⟩ := List.append_inj' hsplit rfl
            obtain rfl := List.singleton_inj.mp heq
            exact absurd hentry (hnot v)
          · rw [List.concat_eq_append, ← List.cons_append, ← List.append_assoc] at hsplit
            obtain ⟨hhistory, -⟩ := List.append_inj' hsplit rfl
            exact ⟨before, event', after, hhistory, hentry,
              fun later hlater => hafter later (by simp [hlater])⟩

end Latest
