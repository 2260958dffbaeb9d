import Mathlib.Data.List.Infix
import ZingCdn.Library.Interleaving

/-!
# A Value Saved to a File

Savers share a value and save it to a file. Each updates the value, reads it back, truncates the
file, and writes the text of what it has read at the beginning. No two of these are one step, so
a saver that has read earlier may write later, and the end of a longer text may be left standing
behind a shorter one.

The texts are self-delimiting, in the sense that a text with the end of another one behind it is
not a text. So whatever the interleaving, a reader of the file makes nothing up: it finds a value
that was held at some time, or none. When no two saves overlap and none fails, nothing is lost.

The savers are also programs with effects of their own in between. A pool of such programs is one
of savers, as far as the value and the file go.

## Main results

* `file_of_reachable`: what a reader of the file finds, in every run.
* `file_of_orderly`: what it finds when no two saves overlap.
* `reachable_savers`, `orderly_savers`: the runs of programs.
-/

open Transition

namespace Saving

variable {X U B : Type}

/-- How a value is written, and how a text is read. -/
structure Format (X B : Type) where
  text : X → List B
  value : List B → Option X
  close : B

/-- A text is read back, ends in the closing token, and is no text any more with something behind
it that ends in the closing token too. -/
structure Format.Delimited (fmt : Format X B) : Prop where
  value_text (x : X) : fmt.value (fmt.text x) = some x
  value_nil : fmt.value [] = none
  getLast?_text (x : X) : (fmt.text x).getLast? = some fmt.close
  value_append (x : X) (rest : List B) (hrest : rest.getLast? = some fmt.close) :
    fmt.value (fmt.text x ++ rest) = none

/-- Read a file, or take the default. -/
def Format.load (fmt : Format X B) (default : X) (file : Option (List B)) : X :=
  (file.bind fmt.value).getD default

/-- Write a text at the beginning of a file. -/
def overlay (text file : List B) : List B := text ++ file.drop text.length

/-- The value, the updates that have made it, and the file. -/
structure Shared (X U B : Type) where
  value : X
  updates : List U
  file : Option (List B)

namespace Shared

/-- Update the value. -/
def update (apply : X → U → X) (s : Shared X U B) (u : U) : Shared X U B :=
  { s with value := apply s.value u, updates := s.updates ++ [u] }

/-- Truncate the file, or create it. -/
def truncate (s : Shared X U B) : Shared X U B := { s with file := some [] }

/-- Write a text at the beginning of the file. -/
def write (s : Shared X U B) (text : List B) : Shared X U B :=
  { s with file := some (overlay text (s.file.getD [])) }

end Shared

/-- How far a saver has come: before its update, before its reading, and with a value to save,
before and after the truncation. -/
inductive Phase (X : Type)
  | idle
  | dirty
  | holding (x : X)
  | opened (x : X)
  | saved
  | failed

/-- The value that is being saved. -/
def Phase.saving? : Phase X → Option X
  | .holding x | .opened x => some x
  | _ => none

/-- Nothing is left to do with the value. -/
def Phase.Settled (p : Phase X) : Prop := p ≠ .dirty ∧ p.saving? = none

/-- Savers of one value. -/
structure Savers (X U B : Type) where
  shared : Shared X U B
  phases : List (Phase X)

/-- One step: a saver comes up, or one takes its next step. Only some updates are made. -/
inductive Step (fmt : Format X B) (apply : X → U → X) (allowed : U → Prop) :
    Savers X U B → Savers X U B → Prop
  | start (s : Shared X U B) (ps : List (Phase X)) :
      Step fmt apply allowed ⟨s, ps⟩ ⟨s, .idle :: ps⟩
  | update (s : Shared X U B) (pre post : List (Phase X)) (u : U) :
      allowed u → Step fmt apply allowed ⟨s, pre ++ .idle :: post⟩
        ⟨s.update apply u, pre ++ .dirty :: post⟩
  | read (s : Shared X U B) (pre post : List (Phase X)) :
      Step fmt apply allowed ⟨s, pre ++ .dirty :: post⟩ ⟨s, pre ++ .holding s.value :: post⟩
  | truncate (s : Shared X U B) (pre post : List (Phase X)) (x : X) :
      Step fmt apply allowed ⟨s, pre ++ .holding x :: post⟩ ⟨s.truncate, pre ++ .opened x :: post⟩
  | truncateFails (s : Shared X U B) (pre post : List (Phase X)) (x : X) :
      Step fmt apply allowed ⟨s, pre ++ .holding x :: post⟩ ⟨s, pre ++ .failed :: post⟩
  | write (s : Shared X U B) (pre post : List (Phase X)) (x : X) :
      Step fmt apply allowed ⟨s, pre ++ .opened x :: post⟩
        ⟨s.write (fmt.text x), pre ++ .saved :: post⟩
  | writeFails (s : Shared X U B) (pre post : List (Phase X)) (x : X) :
      Step fmt apply allowed ⟨s, pre ++ .opened x :: post⟩ ⟨s, pre ++ .failed :: post⟩

/-- No savers yet. -/
def Initial (x₀ : X) (file₀ : Option (List B)) (s : Savers X U B) : Prop :=
  s.shared = ⟨x₀, [], file₀⟩ ∧ s.phases = []

variable {fmt : Format X B} {apply : X → U → X} {allowed : U → Prop} {x₀ : X}
  {file₀ : Option (List B)} {s s' : Savers X U B}

/-! ### What a reader of the file finds -/

/-- The value after a first part of the updates. -/
def Held (apply : X → U → X) (x₀ : X) (updates : List U) (x : X) : Prop :=
  ∃ pre, pre <+: updates ∧ x = pre.foldl apply x₀

theorem Held.snoc {updates : List U} {x : X} (h : Held apply x₀ updates x) (u : U) :
    Held apply x₀ (updates ++ [u]) x := by
  obtain ⟨pre, hpre, rfl⟩ := h
  exact ⟨pre, hpre.trans (List.prefix_append _ _), rfl⟩

/-- The file has been truncated, and holds at its beginning the text of a value that was held,
when it holds anything. -/
def Torn (fmt : Format X B) (apply : X → U → X) (x₀ : X) (s : Shared X U B) : Prop :=
  s.file = some [] ∨ ∃ x rest, Held apply x₀ s.updates x ∧ s.file = some (fmt.text x ++ rest) ∧
    (rest = [] ∨ rest.getLast? = some fmt.close)

/-- What is dropped from a list leaves nothing or its last element. -/
theorem getLast?_drop {l : List B} {n : ℕ} {b : B} (h : l.getLast? = some b) :
    l.drop n = [] ∨ (l.drop n).getLast? = some b := by
  rcases le_or_gt l.length n with hle | hlt
  · exact .inl (List.drop_eq_nil_of_le hle)
  · refine .inr ?_
    rw [List.getLast?_drop, if_neg (Nat.not_le.mpr hlt), h]

/-- Writing the text of a value that was held, behind a truncation. -/
theorem Torn.write (hfmt : fmt.Delimited) {s : Shared X U B} (h : Torn fmt apply x₀ s) {x : X}
    (hx : Held apply x₀ s.updates x) : Torn fmt apply x₀ (s.write (fmt.text x)) := by
  refine .inr ⟨x, _, hx, rfl, ?_⟩
  rcases h with hnil | ⟨y, rest, -, hfile, hrest⟩
  · rw [hnil]
    exact .inl List.drop_nil
  · rw [hfile]
    refine getLast?_drop (b := fmt.close) ?_
    rcases hrest with rfl | hrest
    · rw [Option.getD_some, List.append_nil, hfmt.getLast?_text]
    · rw [Option.getD_some, List.getLast?_append, hrest, Option.some_or]

/-- A file that was truncated says what was held, or nothing. -/
theorem Torn.load (hfmt : fmt.Delimited) {s : Shared X U B} (h : Torn fmt apply x₀ s)
    (default : X) :
    fmt.load default s.file = default ∨ Held apply x₀ s.updates (fmt.load default s.file) := by
  rcases h with hnil | ⟨x, rest, hx, hfile, rfl | hrest⟩
  · refine .inl ?_
    rw [hnil, Format.load, Option.bind_some, hfmt.value_nil, Option.getD_none]
  · refine .inr ?_
    rwa [hfile, List.append_nil, Format.load, Option.bind_some, hfmt.value_text, Option.getD_some]
  · refine .inl ?_
    rw [hfile, Format.load, Option.bind_some, hfmt.value_append x rest hrest, Option.getD_none]

/-- The updates are allowed, the value is what they make of it, every value to save was held, and
the file is as it was or holds nothing else. -/
structure Sound (fmt : Format X B) (apply : X → U → X) (allowed : U → Prop) (x₀ : X)
    (file₀ : Option (List B)) (s : Savers X U B) : Prop where
  updates : ∀ u ∈ s.shared.updates, allowed u
  value : s.shared.value = s.shared.updates.foldl apply x₀
  held : ∀ p ∈ s.phases, ∀ x, p.saving? = some x → Held apply x₀ s.shared.updates x
  opened : ∀ x, .opened x ∈ s.phases → Torn fmt apply x₀ s.shared
  file : s.shared.file = file₀ ∨ Torn fmt apply x₀ s.shared

/-- What holds of all savers holds after a step of one. -/
theorem forall_phases {P Q : Phase X → Prop} {pre post : List (Phase X)} {p p' : Phase X}
    (h : ∀ q ∈ pre ++ p :: post, P q) (hother : ∀ q, P q → Q q) (hown : Q p') :
    ∀ q ∈ pre ++ p' :: post, Q q := by
  intro q hq
  rcases List.mem_append.mp hq with hq | hq
  · exact hother q (h q (List.mem_append_left _ hq))
  · rcases List.mem_cons.mp hq with rfl | hq
    · exact hown
    · exact hother q (h q (List.mem_append_right _ (List.mem_cons_of_mem _ hq)))

/-- A phase of the savers that did not take the step. -/
theorem mem_phases_of_ne {pre post : List (Phase X)} {p p' q : Phase X}
    (h : q ∈ pre ++ p' :: post) (hne : q ≠ p') : q ∈ pre ++ p :: post := by
  rcases List.mem_append.mp h with h | h
  · exact List.mem_append_left _ h
  · exact List.mem_append_right _ (List.mem_cons_of_mem _ ((List.mem_cons.mp h).resolve_left hne))

theorem Sound.step (hfmt : fmt.Delimited) (h : Sound fmt apply allowed x₀ file₀ s)
    (hs : Step fmt apply allowed s s') : Sound fmt apply allowed x₀ file₀ s' := by
  obtain ⟨hupdates, hvalue, hheld, hopened, hfile⟩ := h
  cases hs with
  | start s ps =>
      refine ⟨hupdates, hvalue, fun p hp x hx => ?_, fun x hx => ?_, hfile⟩
      · rcases List.mem_cons.mp hp with rfl | hp
        · cases hx
        · exact hheld p hp x hx
      · exact hopened x ((List.mem_cons.mp hx).resolve_left nofun)
  | update s pre post u hu =>
      have htorn : Torn fmt apply x₀ s → Torn fmt apply x₀ (s.update apply u) := by
        rintro (hnil | ⟨x, rest, hx, hfile, hrest⟩)
        · exact .inl hnil
        · exact .inr ⟨x, rest, hx.snoc u, hfile, hrest⟩
      refine ⟨fun w hw => ?_, ?_, forall_phases hheld (fun p hp x hx => (hp x hx).snoc u) nofun,
        fun x hx => htorn (hopened x (mem_phases_of_ne hx nofun)), hfile.imp_right htorn⟩
      · rcases List.mem_append.mp hw with hw | hw
        · exact hupdates w hw
        · exact List.mem_singleton.mp hw ▸ hu
      show apply s.value u = (s.updates ++ [u]).foldl apply x₀
      rw [List.foldl_append, ← hvalue]
      rfl
  | read s pre post =>
      refine ⟨hupdates, hvalue, forall_phases hheld (fun p hp => hp) ?_,
        fun x hx => hopened x (mem_phases_of_ne hx nofun), hfile⟩
      rintro x ⟨⟩
      exact ⟨s.updates, List.prefix_refl _, hvalue⟩
  | truncate s pre post x =>
      refine ⟨hupdates, hvalue, forall_phases hheld (fun p hp => hp) ?_, fun _ _ => .inl rfl,
        .inr (.inl rfl)⟩
      exact hheld (.holding x) (by simp)
  | truncateFails s pre post x =>
      exact ⟨hupdates, hvalue, forall_phases hheld (fun p hp => hp) nofun,
        fun y hy => hopened y (mem_phases_of_ne hy nofun), hfile⟩
  | write s pre post x =>
      have htorn : Torn fmt apply x₀ (s.write (fmt.text x)) :=
        (hopened x (by simp)).write hfmt (hheld (.opened x) (by simp) x rfl)
      exact ⟨hupdates, hvalue, forall_phases hheld (fun p hp => hp) nofun, fun _ _ => htorn,
        .inr htorn⟩
  | writeFails s pre post x =>
      exact ⟨hupdates, hvalue, forall_phases hheld (fun p hp => hp) nofun,
        fun y hy => hopened y (mem_phases_of_ne hy nofun), hfile⟩

theorem sound_of_reachable (hfmt : fmt.Delimited)
    (h : Reachable (Initial x₀ file₀) (Step fmt apply allowed) s) :
    Sound fmt apply allowed x₀ file₀ s := by
  refine h.invariant (Sound fmt apply allowed x₀ file₀) ?_ fun _ _ hsound hs => hsound.step hfmt hs
  rintro ⟨_, _⟩ ⟨rfl, rfl⟩
  exact ⟨by simp, rfl, by simp, by simp, .inl rfl⟩

/-- **What a reader of the file finds**, in every run: the file as it was, nothing, or the value
after a first part of the updates. -/
theorem file_of_reachable (hfmt : fmt.Delimited)
    (h : Reachable (Initial x₀ file₀) (Step fmt apply allowed) s) (default : X) :
    s.shared.file = file₀ ∨ fmt.load default s.shared.file = default ∨
      Held apply x₀ s.shared.updates (fmt.load default s.shared.file) :=
  (sound_of_reachable hfmt h).file.imp_right fun htorn => htorn.load hfmt default

/-! ### Saves that do not overlap -/

/-- At most one saver has a value to save, and no save has failed. -/
def Orderly (s : Savers X U B) : Prop :=
  s.phases.Pairwise (fun p q => p.saving? = none ∨ q.saving? = none) ∧ .failed ∉ s.phases

/-- The others have nothing to save. -/
theorem Orderly.others {s : Shared X U B} {pre post : List (Phase X)} {p : Phase X} {x : X}
    (h : Orderly ⟨s, pre ++ p :: post⟩) (hp : p.saving? = some x) :
    ∀ q ∈ pre ++ post, q.saving? = none := by
  have hpair := List.pairwise_append.mp h.1
  obtain ⟨hbehind, -⟩ := List.pairwise_cons.mp hpair.2.1
  intro q hq
  rcases List.mem_append.mp hq with hq | hq
  · exact (hpair.2.2 q hq p List.mem_cons_self).resolve_right (by rw [hp]; nofun)
  · exact (hbehind q hq).resolve_left (by rw [hp]; nofun)

/-- Where everybody has read, what is being saved is the value, and without a save the file is up
to date. -/
structure UpToDate (fmt : Format X B) (default : X) (s : Savers X U B) : Prop where
  saving : .dirty ∉ s.phases → ∀ p ∈ s.phases, ∀ x, p.saving? = some x → x = s.shared.value
  file : (∀ p ∈ s.phases, p.Settled) → fmt.load default s.shared.file = s.shared.value
  opened : ∀ x, .opened x ∈ s.phases → s.shared.file = some []

/-- The only saver with a value to save. -/
theorem eq_of_saving {s : Shared X U B} {pre post : List (Phase X)} {p q : Phase X} {x y : X}
    (h : Orderly ⟨s, pre ++ p :: post⟩) (hp : p.saving? = some x) (hq : q ∈ pre ++ p :: post)
    (hy : q.saving? = some y) : q = p := by
  have hothers := h.others hp
  rcases List.mem_append.mp hq with hmem | hmem
  · rw [hothers q (List.mem_append_left _ hmem)] at hy
    cases hy
  · rcases List.mem_cons.mp hmem with rfl | hmem
    · rfl
    · rw [hothers q (List.mem_append_right _ hmem)] at hy
      cases hy

theorem UpToDate.step (hfmt : fmt.Delimited) {default : X} (h : UpToDate fmt default s)
    (horderly : Orderly s) (hs : Step fmt apply allowed s s') (horderly' : Orderly s') :
    UpToDate fmt default s' := by
  obtain ⟨hsaving, hfile, hopened⟩ := h
  cases hs with
  | start s ps =>
      refine ⟨fun hdirty p hp x hx => ?_, fun hsettled => ?_, fun x hx => ?_⟩
      · rcases List.mem_cons.mp hp with rfl | hp
        · cases hx
        · exact hsaving (fun hmem => hdirty (List.mem_cons_of_mem _ hmem)) p hp x hx
      · exact hfile fun p hp => hsettled p (List.mem_cons_of_mem _ hp)
      · exact hopened x ((List.mem_cons.mp hx).resolve_left nofun)
  | update s pre post u _ =>
      exact ⟨fun hdirty => absurd (by simp) hdirty,
        fun hsettled => absurd rfl (hsettled .dirty (by simp)).1,
        fun x hx => hopened x (mem_phases_of_ne hx nofun)⟩
  | read s pre post =>
      refine ⟨fun _ p hp x hx => ?_, fun hsettled => ?_, fun x hx => ?_⟩
      · obtain rfl := eq_of_saving horderly' rfl hp hx
        exact (Option.some.inj hx).symm
      · cases (hsettled (.holding s.value) (by simp)).2
      · cases eq_of_saving horderly' rfl hx rfl
  | truncate s pre post x =>
      refine ⟨fun hdirty p hp y hy => ?_, fun hsettled => ?_, fun _ _ => rfl⟩
      · obtain rfl := eq_of_saving horderly' rfl hp hy
        obtain rfl := Option.some.inj hy
        exact hsaving (fun hmem => hdirty (mem_phases_of_ne hmem nofun)) (.holding x) (by simp) x
          rfl
      · cases (hsettled (.opened x) (by simp)).2
  | truncateFails s pre post x => exact absurd (by simp) horderly'.2
  | write s pre post x =>
      have hothers := horderly.others rfl
      refine ⟨fun _ p hp y hy => ?_, fun hsettled => ?_, fun y hy => ?_⟩
      · have hmem := mem_phases_of_ne (p := .opened x) hp fun heq => by rw [heq] at hy; cases hy
        obtain rfl := eq_of_saving horderly rfl hmem hy
        rw [hothers _ (by simpa using hp)] at hy
        cases hy
      · have hdirty : .dirty ∉ pre ++ .opened x :: post := fun hmem =>
          (hsettled .dirty (mem_phases_of_ne hmem nofun)).1 rfl
        have hx : x = s.value := hsaving hdirty (.opened x) (by simp) x rfl
        show fmt.load default (some (overlay _ _)) = s.value
        rw [hopened x (by simp), Format.load, Option.bind_some, overlay, Option.getD_some,
          List.drop_nil, List.append_nil, hfmt.value_text, Option.getD_some, hx]
      · have hy' : .opened y ∈ pre ++ post := by simpa using hy
        cases hothers _ hy'
  | writeFails s pre post x => exact absurd (by simp) horderly'.2

/-- **What a reader of the file finds** when no two saves overlap and none has failed: the value,
whenever nobody has anything left to save. -/
theorem file_of_orderly (hfmt : fmt.Delimited) {default : X}
    (hload : fmt.load default file₀ = x₀)
    (h : Reachable (Initial x₀ file₀) (fun s s' => Step fmt apply allowed s s' ∧ Orderly s') s)
    (hsettled : ∀ p ∈ s.phases, p.Settled) :
    fmt.load default s.shared.file = s.shared.value := by
  suffices hdate : Orderly s ∧ UpToDate fmt default s from hdate.2.file hsettled
  refine h.invariant (fun s => Orderly s ∧ UpToDate fmt default s) ?_ ?_
  · rintro ⟨_, _⟩ ⟨rfl, rfl⟩
    exact ⟨⟨List.Pairwise.nil, by simp⟩, by simp, fun _ => hload, by simp⟩
  · rintro _ _ ⟨horderly, hdate⟩ ⟨hs, horderly'⟩
    exact ⟨horderly', hdate.step hfmt horderly hs horderly'⟩

/-! ### Programs that save -/

section Programs

open Program Program.Prog

variable {E α τ : Type} {Ans : E → Type}

/-- What a program does with the value and the file. -/
inductive Call (U B : Type)
  | update (u : U)
  | read
  | truncate
  | write (text : List B)

/-- What comes back: the value that is read, and whether the file could be truncated or written. -/
def Call.Answer (X : Type) : Call U B → Type
  | .update _ => Unit
  | .read => X
  | .truncate | .write _ => Bool

/-- The answers of a program that has other effects too. -/
abbrev SavingAns (Ans : E → Type) (X U B : Type) : E ⊕ Call U B → Type :=
  Sum.elim Ans (Call.Answer X)

/-- The program, with nothing saved. -/
def alone : Prog Ans α → Prog (SavingAns Ans X U B) α
  | .ret a => .ret a
  | .call e k => .call (.inl e) fun r => alone (k r)
  | .panic => .panic

/-- One call. -/
def perform (call : Call U B) : Prog (SavingAns Ans X U B) (call.Answer X) := .call (.inr call) .ret

/-- Truncate the file, or create it, and write a text. -/
def writeFile (text : List B) : Prog (SavingAns Ans X U B) Unit := do
  let opened : Bool ← perform .truncate
  if opened then do
    let _written : Bool ← perform (.write text)
    pure ()
  else pure ()

/-- The value and the file after an effect. -/
def Shared.next (apply : X → U → X) (s : Shared X U B) :
    (e : E ⊕ Call U B) → SavingAns Ans X U B e → Shared X U B
  | .inr (.update u), _ => s.update apply u
  | .inr .truncate, true => s.truncate
  | .inr (.write text), true => s.write text
  | _, _ => s

/-- A reading is answered by the value. -/
def Shared.Answers (s : Shared X U B) : (e : E ⊕ Call U B) → SavingAns Ans X U B e → Prop
  | .inr .read, x => x = s.value
  | _, _ => True

/-- An effect over the value and the file. -/
def Performs (apply : X → U → X) (s : Shared X U B) (e : E ⊕ Call U B)
    (r : SavingAns Ans X U B e) (s' : Shared X U B) : Prop :=
  s.Answers e r ∧ s' = s.next apply e r

/-- How far a program has come after one more effect. -/
def Phase.next : Phase X → (e : E ⊕ Call U B) → SavingAns Ans X U B e → Phase X
  | .idle, .inr (.update _), _ => .dirty
  | .dirty, .inr .read, x => .holding x
  | .holding x, .inr .truncate, true => .opened x
  | .holding _, .inr .truncate, false => .failed
  | .opened _, .inr (.write _), true => .saved
  | .opened _, .inr (.write _), false => .failed
  | p, _, _ => p

theorem Phase.next_inl (p : Phase X) (e : E) (r : SavingAns Ans X U B (.inl e)) :
    p.next (.inl e) r = p := by
  cases p <;> rfl

/-- How far a program has come. -/
def phase (h : History (SavingAns Ans X U B)) : Phase X :=
  h.foldl (fun p ev => p.next ev.1 ev.2) .idle

@[simp] theorem phase_concat (h : History (SavingAns Ans X U B))
    (ev : Event (SavingAns Ans X U B)) : phase (h ++ [ev]) = (phase h).next ev.1 ev.2 := by
  rw [phase, List.foldl_append]
  rfl

/-- The effects of a saver in the order of its phases. -/
def InOrder (fmt : Format X B) (allowed : U → Prop) : Phase X → E ⊕ Call U B → Prop
  | _, .inl _ => True
  | .idle, .inr (.update u) => allowed u
  | .dirty, .inr .read => True
  | .holding _, .inr .truncate => True
  | .opened x, .inr (.write text) => text = fmt.text x
  | _, _ => False

/-- The contract of a saver. -/
def saver (fmt : Format X B) (allowed : U → Prop) : Contract (SavingAns Ans X U B) where
  rely _ _ _ := True
  guarantee h e := InOrder fmt allowed (phase h) e
  mayPanic := False

/-- A program that saves what it has updated, unless the file cannot be written. -/
abbrev Saves (fmt : Format X B) (allowed : U → Prop) (h : History (SavingAns Ans X U B))
    (p : Prog (SavingAns Ans X U B) α) : Prop :=
  Meets (saver fmt allowed) h p fun h' _ => (phase h').Settled

/-- A program of other effects is as far as before. -/
theorem meets_alone {c : Contract Ans} {Q : α → Prop} {h : History Ans} {p : Prog Ans α}
    (hp : Meets c h p fun _ => Q) (hrely : ∀ h e r, c.rely h e r) (hpanic : ¬ c.mayPanic)
    (h' : History (SavingAns Ans X U B)) :
    Meets (saver fmt allowed) h' (alone p) fun h'' a => phase h'' = phase h' ∧ Q a := by
  induction p generalizing h h' with
  | ret a => exact ⟨rfl, hp⟩
  | call e k ih =>
      refine ⟨trivial, fun r _ => (ih r (hp.2 r (hrely h e r)) _).mono ?_⟩
      rintro h'' a - ⟨hphase, ha⟩
      exact ⟨hphase.trans ((phase_concat _ _).trans (Phase.next_inl _ e r)), ha⟩
  | panic => exact absurd hp hpanic

/-- Writing the file ends a save. -/
theorem saves_writeFile {h : History (SavingAns Ans X U B)} {x : X} (hx : phase h = .holding x) :
    Saves fmt allowed h (writeFile (fmt.text x)) := by
  have horder : InOrder fmt allowed (phase h) (.inr .truncate : E ⊕ Call U B) := by rw [hx]; trivial
  refine ⟨horder, fun opened _ => ?_⟩
  cases opened with
  | false =>
      show (phase _).Settled
      rw [phase_concat, hx]
      exact ⟨nofun, rfl⟩
  | true =>
      have hopened : phase (h ++ [⟨.inr .truncate, true⟩]) = .opened x := by
        rw [phase_concat, hx]
        rfl
      have horder : InOrder fmt allowed (phase (h ++ [⟨.inr .truncate, true⟩]))
          (.inr (.write (fmt.text x)) : E ⊕ Call U B) := by
        rw [hopened]
        rfl
      refine ⟨horder, fun written _ => ?_⟩
      show (phase _).Settled
      rw [phase_concat, hopened]
      cases written <;> exact ⟨nofun, rfl⟩

/-- The savers of a pool. -/
def savers (pool : Pool (SavingAns Ans X U B) (Shared X U B) τ α) : Savers X U B :=
  ⟨pool.shared, pool.tasks.map fun task => phase task.history⟩

variable {start : τ → Prog (SavingAns Ans X U B) α}
  {pool pool' : Pool (SavingAns Ans X U B) (Shared X U B) τ α}

/-- One effect of one program is a step of the savers, or none. -/
theorem savers_act {s s' : Shared X U B} {h : History (SavingAns Ans X U B)} {e : E ⊕ Call U B}
    {r : SavingAns Ans X U B e} (horder : InOrder fmt allowed (phase h) e)
    (hperform : Performs apply s e r s') (pre post : List (Phase X)) :
    (⟨s', pre ++ phase (h ++ [⟨e, r⟩]) :: post⟩ : Savers X U B) = ⟨s, pre ++ phase h :: post⟩ ∨
      Step fmt apply allowed ⟨s, pre ++ phase h :: post⟩
        ⟨s', pre ++ phase (h ++ [⟨e, r⟩]) :: post⟩ := by
  obtain ⟨hanswer, rfl⟩ := hperform
  rw [phase_concat]
  generalize phase h = p at horder
  match e, p, r, horder with
  | .inl _, p, _, _ => exact .inl (by cases p <;> rfl)
  | .inr (.update u), .idle, _, hu => exact .inr (.update s pre post u hu)
  | .inr .read, .dirty, x, _ =>
      obtain rfl : x = s.value := hanswer
      exact .inr (.read s pre post)
  | .inr .truncate, .holding x, true, _ => exact .inr (.truncate s pre post x)
  | .inr .truncate, .holding x, false, _ => exact .inr (.truncateFails s pre post x)
  | .inr (.write _), .opened x, true, rfl => exact .inr (.write s pre post x)
  | .inr (.write _), .opened x, false, rfl => exact .inr (.writeFails s pre post x)

/-- **A pool of programs that save is one of savers**, step by step. -/
theorem savers_step (hstart : ∀ tag, Saves fmt allowed [] (start tag))
    (hpool : ∀ task ∈ pool.tasks, Saves fmt allowed task.history task.rest)
    (hs : Pool.Step (Performs apply) start pool pool') :
    (∀ task ∈ pool'.tasks, Saves fmt allowed task.history task.rest) ∧
      (savers pool' = savers pool ∨ Step fmt apply allowed (savers pool) (savers pool')) := by
  cases hs with
  | start s tasks tag =>
      refine ⟨fun task hmem => ?_, .inr (.start s _)⟩
      rcases List.mem_cons.mp hmem with rfl | hmem
      · exact hstart tag
      · exact hpool task hmem
  | @act s s' pre post tag h e k r hperform =>
      obtain ⟨horder, hrest⟩ := hpool ⟨tag, h, .call e k⟩ (by simp)
      refine ⟨fun task hmem => ?_, ?_⟩
      · rcases List.mem_append.mp hmem with hmem | hmem
        · exact hpool task (List.mem_append_left _ hmem)
        · rcases List.mem_cons.mp hmem with rfl | hmem
          · exact hrest r trivial
          · exact hpool task (List.mem_append_right _ (List.mem_cons_of_mem _ hmem))
      · simpa [savers] using savers_act horder hperform (pre.map fun task => phase task.history)
          (post.map fun task => phase task.history)

/-- A pool without programs yet. -/
abbrev NoneYet (x₀ : X) (file₀ : Option (List B)) (s : Shared X U B) : Prop := s = ⟨x₀, [], file₀⟩

/-- The runs of a pool are runs of savers. -/
theorem reachable_savers (hstart : ∀ tag, Saves fmt allowed [] (start tag))
    (h : Pool.Reachable (NoneYet x₀ file₀) (Performs apply) start pool) :
    Reachable (Initial x₀ file₀) (Step fmt apply allowed) (savers pool) := by
  suffices hall : (∀ task ∈ pool.tasks, Saves fmt allowed task.history task.rest) ∧
      Reachable (Initial x₀ file₀) (Step fmt apply allowed) (savers pool) from hall.2
  refine Transition.Reachable.invariant
    (fun pool => (∀ task ∈ pool.tasks, Saves fmt allowed task.history task.rest) ∧
      Reachable (Initial x₀ file₀) (Step fmt apply allowed) (savers pool)) ?_ ?_ h
  · rintro ⟨_, _⟩ ⟨rfl, rfl⟩
    exact ⟨by simp, .of_init ⟨rfl, rfl⟩⟩
  · rintro pool pool' ⟨hpool, hreach⟩ hs
    obtain ⟨hpool', heq | hstep⟩ := savers_step hstart hpool hs
    · exact ⟨hpool', heq ▸ hreach⟩
    · exact ⟨hpool', hreach.snoc hstep⟩

/-- A step after which no two programs are saving, and no save has failed. -/
def OrderlyStep (apply : X → U → X) (start : τ → Prog (SavingAns Ans X U B) α)
    (pool pool' : Pool (SavingAns Ans X U B) (Shared X U B) τ α) : Prop :=
  Pool.Step (Performs apply) start pool pool' ∧ Orderly (savers pool')

/-- The orderly runs of a pool are orderly runs of savers, and who has returned is settled. -/
theorem orderly_savers (hstart : ∀ tag, Saves fmt allowed [] (start tag))
    (h : Reachable (fun pool => NoneYet x₀ file₀ pool.shared ∧ pool.tasks = [])
      (OrderlyStep apply start) pool) :
    Reachable (Initial x₀ file₀) (fun s s' => Step fmt apply allowed s s' ∧ Orderly s')
        (savers pool) ∧
      ((∀ task ∈ pool.tasks, ∃ a, task.rest = .ret a) → ∀ p ∈ (savers pool).phases, p.Settled) := by
  suffices hall : (∀ task ∈ pool.tasks, Saves fmt allowed task.history task.rest) ∧
      Reachable (Initial x₀ file₀) (fun s s' => Step fmt apply allowed s s' ∧ Orderly s')
        (savers pool) by
    refine ⟨hall.2, fun hret p hp => ?_⟩
    obtain ⟨task, htask, rfl⟩ := List.mem_map.mp hp
    obtain ⟨a, ha⟩ := hret task htask
    have hsaves := hall.1 task htask
    rw [ha] at hsaves
    exact hsaves
  refine h.invariant
    (fun pool => (∀ task ∈ pool.tasks, Saves fmt allowed task.history task.rest) ∧
      Reachable (Initial x₀ file₀) (fun s s' => Step fmt apply allowed s s' ∧ Orderly s')
        (savers pool)) ?_ ?_
  · rintro ⟨_, _⟩ ⟨rfl, rfl⟩
    exact ⟨by simp, .of_init ⟨rfl, rfl⟩⟩
  · rintro pool pool' ⟨hpool, hreach⟩ ⟨hs, horderly⟩
    obtain ⟨hpool', heq | hstep⟩ := savers_step hstart hpool hs
    · exact ⟨hpool', heq ▸ hreach⟩
    · exact ⟨hpool', hreach.snoc ⟨hstep, horderly⟩⟩

/-- The answers fit the value and the file as they are when they are given. -/
def Fits (apply : X → U → X) : Shared X U B → History (SavingAns Ans X U B) → Prop
  | _, [] => True
  | s, ev :: t => s.Answers ev.1 ev.2 ∧ Fits apply (s.next apply ev.1 ev.2) t

theorem foldl_next_failed (t : History (SavingAns Ans X U B)) :
    t.foldl (fun p ev => p.next ev.1 ev.2) (.failed : Phase X) = .failed := by
  induction t with
  | nil => rfl
  | cons ev t ih =>
      rw [List.foldl_cons]
      exact ih

/-- **A program that runs alone** is an orderly run, when no save fails. -/
theorem orderly_alone {tag : τ} {t : History (SavingAns Ans X U B)} {a : α}
    (hrun : (start tag).Runs t (some a)) (hfits : Fits apply ⟨x₀, [], file₀⟩ t)
    (hphase : phase t ≠ .failed) :
    Reachable (fun pool => NoneYet x₀ file₀ pool.shared ∧ pool.tasks = [])
      (OrderlyStep apply start)
      ⟨t.foldl (fun s ev => s.next apply ev.1 ev.2) ⟨x₀, [], file₀⟩, [⟨tag, t, .ret a⟩]⟩ := by
  have horderly : ∀ {s : Shared X U B} {h : History (SavingAns Ans X U B)}
      {p : Prog (SavingAns Ans X U B) α} (h' : History (SavingAns Ans X U B)), phase (h ++ h') ≠ .failed →
        Orderly (savers (⟨s, [⟨tag, h, p⟩]⟩ :
          Pool (SavingAns Ans X U B) (Shared X U B) τ α)) := by
    intro s h p h' hne
    refine ⟨List.pairwise_singleton _ _, fun hmem => hne ?_⟩
    have hfailed : phase h = .failed := (List.mem_singleton.mp hmem).symm
    rw [phase, List.foldl_append, ← phase, hfailed, foldl_next_failed]
  have hrest : ∀ {s : Shared X U B} {p : Prog (SavingAns Ans X U B) α}
      {h t : History (SavingAns Ans X U B)} {o : Option α}, p.Runs t o → o = some a →
        Fits apply s t → phase (h ++ t) ≠ .failed →
          Reachable (fun pool => NoneYet x₀ file₀ pool.shared ∧ pool.tasks = [])
            (OrderlyStep apply start) ⟨s, [⟨tag, h, p⟩]⟩ →
          Reachable (fun pool => NoneYet x₀ file₀ pool.shared ∧ pool.tasks = [])
            (OrderlyStep apply start)
            ⟨t.foldl (fun s ev => s.next apply ev.1 ev.2) s, [⟨tag, h ++ t, .ret a⟩]⟩ := by
    intro s p h t o hp
    induction hp generalizing s h with
    | ret a' =>
        rintro ⟨⟩ - - hreach
        simpa using hreach
    | @call e k r t o _ ih =>
        intro ho hfits hne hreach
        rw [List.append_cons] at hne
        have hstep : OrderlyStep apply start ⟨s, [⟨tag, h, .call e k⟩]⟩
            ⟨s.next apply e r, [⟨tag, h ++ [⟨e, r⟩], k r⟩]⟩ :=
          ⟨.first r ⟨hfits.1, rfl⟩, horderly _ hne⟩
        have hend := ih ho hfits.2 hne (hreach.snoc hstep)
        rwa [List.append_cons]
    | panic => rintro ⟨⟩
  have hinit : Reachable (fun pool => NoneYet x₀ file₀ pool.shared ∧ pool.tasks = [])
      (OrderlyStep apply start) ⟨⟨x₀, [], file₀⟩, []⟩ := Reachable.of_init ⟨rfl, rfl⟩
  exact hrest (h := []) hrun rfl hfits hphase
    (hinit.snoc ⟨.start _ [] tag, horderly t (by simpa using hphase)⟩)

end Programs

end Saving
