import ZingCdn.Library.Program

/-!
# Programs That Also Emit

A program that hands out values while it runs, to whoever listens. What it emits and what it
asks of its environment stand in one history, in the order in which they happen; `asked` and
`emitted` are the two views of it. A program that emits nothing is embedded by `quietly`, and
its runs in a larger program are its own runs.

## Main results

* `Runs.bind_cases`: a run of two programs, whether it ends or panics.
* `Runs.of_quietly`, `runs_quietly`: the runs of an embedded program are its own.
-/

namespace Program.Prog

variable {E Out : Type} {Ans : E → Type} {α β : Type}

/-- The answers when values are emitted too: nothing comes back for one. -/
abbrev EmitAns (Ans : E → Type) (Out : Type) : E ⊕ Out → Type := Sum.elim Ans fun _ => Unit

/-- Emit a value. -/
def emit (out : Out) : Prog (EmitAns Ans Out) Unit := .call (Sum.inr out) .ret

/-- The program, with nothing emitted. -/
def quietly : Prog Ans α → Prog (EmitAns Ans Out) α
  | .ret a => .ret a
  | .call e k => .call (.inl e) fun r => (k r).quietly
  | .panic => .panic

/-- An event as one that is asked for. -/
def asking (ev : Event Ans) : Event (EmitAns Ans Out) := ⟨.inl ev.1, ev.2⟩

/-- What a history asks of the environment. -/
def asked : History (EmitAns Ans Out) → History Ans
  | [] => []
  | ⟨.inl e, r⟩ :: t => ⟨e, r⟩ :: asked t
  | ⟨.inr _, _⟩ :: t => asked t

/-- What a history emits. -/
def emitted : History (EmitAns Ans Out) → List Out
  | [] => []
  | ⟨.inl _, _⟩ :: t => emitted t
  | ⟨.inr out, _⟩ :: t => out :: emitted t

section Views

variable {t t' : History (EmitAns Ans Out)} {out : Out}

/-- What two histories ask. -/
@[simp] theorem asked_append : asked (t ++ t') = asked t ++ asked t' := by
  induction t with
  | nil => rfl
  | cons ev t ih =>
      rcases ev with ⟨e | out, r⟩
      · exact congrArg (_ :: ·) ih
      · exact ih

/-- What they emit. -/
@[simp] theorem emitted_append : emitted (t ++ t') = emitted t ++ emitted t' := by
  induction t with
  | nil => rfl
  | cons ev t ih =>
      rcases ev with ⟨e | out, r⟩
      · exact ih
      · exact congrArg (_ :: ·) ih

/-- The questions of a program without events are its history. -/
@[simp] theorem asked_map_asking (h : History Ans) :
    asked (h.map asking : History (EmitAns Ans Out)) = h := by
  induction h with
  | nil => rfl
  | cons ev h ih => exact congrArg (ev :: ·) ih

/-- It emits nothing. -/
@[simp] theorem emitted_map_asking (h : History Ans) :
    emitted (h.map asking : History (EmitAns Ans Out)) = [] := by
  induction h with
  | nil => rfl
  | cons ev h ih => exact ih

end Views

/-! ### Runs -/

/-- A run of two programs: the first panics, or the second runs behind it. -/
theorem Runs.bind_cases {p : Prog Ans β} {f : β → Prog Ans α} {t : History Ans} {o : Option α}
    (h : (p >>= f).Runs t o) :
    (p.Runs t none ∧ o = none) ∨
      ∃ t₁ b t₂, t = t₁ ++ t₂ ∧ p.Runs t₁ (some b) ∧ (f b).Runs t₂ o := by
  change (p.bind f).Runs t o at h
  induction p generalizing t with
  | ret b => exact .inr ⟨[], b, t, rfl, .ret b, h⟩
  | call e k ih =>
      obtain ⟨r, t', rfl, hrest⟩ := runs_call_iff.mp h
      rcases ih r hrest with ⟨hpanic, rfl⟩ | ⟨t₁, b, t₂, rfl, hp, hf⟩
      · exact .inl ⟨.call r hpanic, rfl⟩
      · exact .inr ⟨⟨e, r⟩ :: t₁, b, t₂, rfl, .call r hp, hf⟩
  | panic =>
      obtain ⟨rfl, rfl⟩ := runs_panic_iff.mp h
      exact .inl ⟨.panic, rfl⟩

/-- A run of two programs of which the first panics. -/
theorem Runs.bind_panic {p : Prog Ans β} (f : β → Prog Ans α) {t : History Ans}
    (h : p.Runs t none) : (p >>= f).Runs t none := by
  change (p.bind f).Runs t none
  generalize ho : (none : Option β) = o at h
  induction h with
  | ret a => cases ho
  | call r _ ih => exact .call r (ih ho)
  | panic => exact .panic

/-- Emitting a value, and the rest. -/
theorem runs_emit_bind_iff {out : Out} {f : Unit → Prog (EmitAns Ans Out) α}
    {t : History (EmitAns Ans Out)} {o : Option α} :
    (emit out >>= f).Runs t o ↔ ∃ t', t = ⟨.inr out, ()⟩ :: t' ∧ (f ()).Runs t' o := by
  refine Iff.trans runs_call_iff ⟨?_, ?_⟩
  · rintro ⟨r, t', rfl, hrest⟩
    exact ⟨t', rfl, hrest⟩
  · rintro ⟨t', rfl, hrest⟩
    exact ⟨(), t', rfl, hrest⟩

/-- Emitting is one event. -/
theorem runs_emit_iff {out : Out} {t : History (EmitAns Ans Out)} {o : Option Unit} :
    (emit out).Runs t o ↔ t = [⟨.inr out, ()⟩] ∧ o = some () := by
  refine Iff.trans runs_call_iff ⟨?_, ?_⟩
  · rintro ⟨r, t', rfl, hrest⟩
    obtain ⟨rfl, rfl⟩ := runs_ret_iff.mp hrest
    exact ⟨rfl, rfl⟩
  · rintro ⟨rfl, rfl⟩
    exact ⟨(), [], rfl, .ret ()⟩

/-- The runs of an embedded program are its own, and emit nothing. -/
theorem Runs.of_quietly {p : Prog Ans α} {t : History (EmitAns Ans Out)} {o : Option α}
    (h : p.quietly.Runs t o) : p.Runs (asked t) o ∧ emitted t = [] := by
  induction p generalizing t with
  | ret a =>
      obtain ⟨rfl, rfl⟩ := runs_ret_iff.mp h
      exact ⟨.ret a, rfl⟩
  | call e k ih =>
      obtain ⟨r, t', rfl, hrest⟩ := runs_call_iff.mp h
      obtain ⟨hrun, hnone⟩ := ih r hrest
      exact ⟨Runs.call (e := e) r hrun, hnone⟩
  | panic =>
      obtain ⟨rfl, rfl⟩ := runs_panic_iff.mp h
      exact ⟨.panic, rfl⟩

/-- Every run of a program is one of the embedded program. -/
theorem runs_quietly {p : Prog Ans α} {h : History Ans} {o : Option α} (hrun : p.Runs h o) :
    (p.quietly : Prog (EmitAns Ans Out) α).Runs (h.map asking) o := by
  induction hrun with
  | ret a => exact .ret a
  | @call e k r t o _ ih =>
      exact Runs.call (e := Sum.inl e) (k := fun r => (k r).quietly) r ih
  | panic => exact .panic

end Program.Prog
