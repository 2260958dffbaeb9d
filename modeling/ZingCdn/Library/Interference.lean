import ZingCdn.Library.Program

/-!
# A Program under Interference

One program runs over a shared state while others change that state between its effects.
What happens is a **schedule**: each move lets the program perform its next effect, with a
choice of outcome, or lets somebody else change the state. A schedule is played by a
function, so every interleaving is a list of moves that can be evaluated.

The rule is rely and guarantee with a condition on the moves: when each allowed move keeps
an invariant of the history and the state, and each answer is as the program's contract
relies on, the contract holds after every allowed schedule. As programs are finite trees, a
schedule that lets the program move again and again ends it.

## Main results

* `Config.sound`: the rule.
* `Config.Agrees.playAll`: checks that hold change nothing.
* `Config.exists_ended`: every fair schedule ends the program.
-/

namespace Program

open Prog

variable {E : Type} {Ans : E → Type} {σ ν μ α : Type}

/-- A program in the middle of a run over a shared state. -/
structure Config (Ans : E → Type) (σ α : Type) where
  shared : σ
  history : History Ans
  rest : Prog Ans α

/-- A move: the next effect of the program, with a choice of outcome, or a change by
somebody else. -/
inductive Move (ν μ : Type)
  | own (choice : ν)
  | other (change : μ)

namespace Config

/-- The program has returned or panicked. -/
def Ended (cfg : Config Ans σ α) : Prop := (∃ a, cfg.rest = .ret a) ∨ cfg.rest = .panic

variable (answer : σ → ν → (e : E) → Ans e × σ) (change : σ → μ → σ)

/-- Play one move. A program that has ended stays as it is. -/
def play (cfg : Config Ans σ α) : Move ν μ → Config Ans σ α
  | .other m => { cfg with shared := change cfg.shared m }
  | .own choice =>
      match cfg.rest with
      | .call e k =>
          let r := answer cfg.shared choice e
          ⟨r.2, cfg.history ++ [⟨e, r.1⟩], k r.1⟩
      | .ret _ => cfg
      | .panic => cfg

/-- Play a schedule. -/
def playAll (cfg : Config Ans σ α) (moves : List (Move ν μ)) : Config Ans σ α :=
  moves.foldl (play answer change) cfg

/-- Each move of a schedule is allowed where it is made. -/
def Allowed (allowed : Config Ans σ α → Move ν μ → Prop) :
    Config Ans σ α → List (Move ν μ) → Prop
  | _, [] => True
  | cfg, m :: moves => allowed cfg m ∧ Allowed allowed (play answer change cfg m) moves

variable {answer change} {allowed : Config Ans σ α → Move ν μ → Prop}
  {inv : History Ans → σ → Prop} {c : Contract Ans} {Q : History Ans → α → Prop}

/-- What is left of the program meets its contract, and the invariant holds while there is
something left. -/
def Sound (inv : History Ans → σ → Prop) (c : Contract Ans) (Q : History Ans → α → Prop)
    (cfg : Config Ans σ α) : Prop :=
  Meets c cfg.history cfg.rest Q ∧ (¬ cfg.Ended → inv cfg.history cfg.shared)

/-- One allowed move keeps the invariant and the contract. -/
theorem Sound.play
    (hown : ∀ h s e k choice, inv h s → c.guarantee h e → allowed ⟨s, h, .call e k⟩ (.own choice) →
      c.rely h e (answer s choice e).1 ∧
        inv (h ++ [⟨e, (answer s choice e).1⟩]) (answer s choice e).2)
    (hother : ∀ cfg m, ¬ cfg.Ended → inv cfg.history cfg.shared → allowed cfg (.other m) →
      inv cfg.history (change cfg.shared m))
    {cfg : Config Ans σ α} (hsound : Sound inv c Q cfg) {m : Move ν μ} (hm : allowed cfg m) :
    Sound inv c Q (cfg.play answer change m) := by
  obtain ⟨hmeets, hinv⟩ := hsound
  cases m with
  | other m => exact ⟨hmeets, fun hgoing => hother cfg m hgoing (hinv hgoing) hm⟩
  | own choice =>
      obtain ⟨s, h, rest⟩ := cfg
      cases rest with
      | ret | panic => exact ⟨hmeets, hinv⟩
      | call e k =>
          have hgoing : ¬ Ended ⟨s, h, .call e k⟩ := by
            rintro (⟨a, hret⟩ | hpanic)
            · cases hret
            · cases hpanic
          obtain ⟨hrely, hinv'⟩ := hown h s e k choice (hinv hgoing) hmeets.1 hm
          exact ⟨hmeets.2 _ hrely, fun _ => hinv'⟩

/-- **Rely and guarantee under interference**: after every allowed schedule the program
meets its contract, and the invariant holds while it goes on. -/
theorem sound
    (hown : ∀ h s e k choice, inv h s → c.guarantee h e → allowed ⟨s, h, .call e k⟩ (.own choice) →
      c.rely h e (answer s choice e).1 ∧
        inv (h ++ [⟨e, (answer s choice e).1⟩]) (answer s choice e).2)
    (hother : ∀ cfg m, ¬ cfg.Ended → inv cfg.history cfg.shared → allowed cfg (.other m) →
      inv cfg.history (change cfg.shared m))
    {cfg : Config Ans σ α} (hsound : Sound inv c Q cfg) {moves : List (Move ν μ)}
    (hmoves : Allowed answer change allowed cfg moves) :
    Sound inv c Q (cfg.playAll answer change moves) := by
  induction moves generalizing cfg with
  | nil => exact hsound
  | cons m moves ih => exact ih (hsound.play hown hother hmoves.1) hmoves.2

/-! ### A program with checks -/

/-- `Checks p q`: the program `p` does what `q` does, or panics. -/
inductive Checks : Prog Ans α → Prog Ans α → Prop
  | ret (a : α) : Checks (.ret a) (.ret a)
  | call {e : E} {k k' : Ans e → Prog Ans α} (hk : ∀ r, Checks (k r) (k' r)) :
      Checks (.call e k) (.call e k')
  | panic (q : Prog Ans α) : Checks .panic q

protected theorem Checks.refl (p : Prog Ans α) : Checks p p := by
  induction p with
  | ret a => exact .ret a
  | call e k ih => exact .call ih
  | panic => exact .panic _

theorem Checks.bind {β : Type} {p q : Prog Ans β} (hpq : Checks p q) {f g : β → Prog Ans α}
    (hfg : ∀ b, Checks (f b) (g b)) : Checks (p >>= f) (q >>= g) := by
  induction hpq with
  | ret b => exact hfg b
  | call _ ih => exact .call ih
  | panic q => exact .panic _

/-- Where the program with checks returns, the other returns the same. -/
theorem Checks.eq_ret {q : Prog Ans α} {a : α} (h : Checks (.ret a) q) : q = .ret a := by
  cases h
  rfl

/-- Two configurations that agree, up to the checks of the first. -/
structure Agrees (cfg cfg' : Config Ans σ α) : Prop where
  shared : cfg'.shared = cfg.shared
  history : cfg'.history = cfg.history
  rest : Checks cfg.rest cfg'.rest

/-- A move keeps two configurations in step, unless the first has panicked. -/
theorem Agrees.play {cfg cfg' : Config Ans σ α} (hagrees : Agrees cfg cfg')
    (hsafe : cfg.rest ≠ .panic) (m : Move ν μ) :
    Agrees (cfg.play answer change m) (cfg'.play answer change m) := by
  obtain ⟨s, h, rest⟩ := cfg
  obtain ⟨s', h', rest'⟩ := cfg'
  obtain ⟨hs, hh, hrest⟩ := hagrees
  obtain rfl : s' = s := hs
  obtain rfl : h' = h := hh
  cases m with
  | other m => exact ⟨rfl, rfl, hrest⟩
  | own choice =>
      cases hrest with
      | ret a => exact ⟨rfl, rfl, .ret a⟩
      | call hk => exact ⟨rfl, rfl, hk _⟩
      | panic q => exact absurd rfl hsafe

variable (answer change) in
/-- A panic is the end. -/
theorem rest_playAll_panic {cfg : Config Ans σ α} (hrest : cfg.rest = .panic)
    (moves : List (Move ν μ)) : (cfg.playAll answer change moves).rest = .panic := by
  induction moves generalizing cfg with
  | nil => exact hrest
  | cons m moves ih =>
      refine ih ?_
      cases m with
      | other m => exact hrest
      | own choice =>
          rw [Config.play, hrest]
          exact hrest

/-- **Checks that hold change nothing**: two configurations that agree stay in step as long
as the first does not panic. -/
theorem Agrees.playAll {cfg cfg' : Config Ans σ α} (hagrees : Agrees cfg cfg')
    {moves : List (Move ν μ)} (hsafe : (cfg.playAll answer change moves).rest ≠ .panic) :
    Agrees (cfg.playAll answer change moves) (cfg'.playAll answer change moves) := by
  induction moves generalizing cfg cfg' with
  | nil => exact hagrees
  | cons m moves ih =>
      refine ih (hagrees.play (fun hpanic => hsafe ?_) m) hsafe
      exact rest_playAll_panic answer change hpanic (m :: moves)

/-! ### Schedules without an end -/

variable (answer change) in
/-- Where an endless schedule is after `n` moves. -/
def after (cfg : Config Ans σ α) (moves : ℕ → Move ν μ) : ℕ → Config Ans σ α
  | 0 => cfg
  | n + 1 => (after cfg moves n).play answer change (moves n)

/-- The first moves of an endless schedule are a schedule. -/
theorem after_eq_playAll (cfg : Config Ans σ α) (moves : ℕ → Move ν μ) (n : ℕ) :
    cfg.after answer change moves n
      = cfg.playAll answer change ((List.range n).map moves) := by
  induction n with
  | zero => rfl
  | succ n ih =>
      rw [List.range_succ, List.map_append, playAll, List.foldl_append]
      exact congrArg (fun cfg' => play answer change cfg' (moves n)) ih

/-- The first moves of an endless schedule of allowed moves are allowed. -/
theorem allowed_range {cfg : Config Ans σ α} {moves : ℕ → Move ν μ}
    (hmoves : ∀ n, allowed (cfg.after answer change moves n) (moves n)) (n : ℕ) :
    Allowed answer change allowed cfg ((List.range n).map moves) := by
  have hsnoc : ∀ (l : List (Move ν μ)) (m : Move ν μ) (cfg : Config Ans σ α),
      Allowed answer change allowed cfg l → allowed (cfg.playAll answer change l) m →
        Allowed answer change allowed cfg (l ++ [m]) := by
    intro l m
    induction l with
    | nil => exact fun cfg _ hm => ⟨hm, trivial⟩
    | cons m' l ih => exact fun cfg hl hm => ⟨hl.1, ih _ hl.2 hm⟩
  induction n with
  | zero => trivial
  | succ n ih =>
      rw [List.range_succ, List.map_append]
      refine hsnoc _ _ _ ih ?_
      rw [← after_eq_playAll]
      exact hmoves n

/-- **Every fair schedule ends the program**: one in which the program moves again and
again. -/
theorem exists_ended (cfg : Config Ans σ α) {moves : ℕ → Move ν μ}
    (hfair : ∀ n, ∃ m, n ≤ m ∧ ∃ choice, moves m = .own choice) :
    ∃ n, (cfg.after answer change moves n).Ended := by
  suffices hrest : ∀ (p : Prog Ans α) n, (cfg.after answer change moves n).rest = p →
      ∃ m, (cfg.after answer change moves m).Ended from hrest _ 0 rfl
  intro p
  induction p with
  | ret a => exact fun n hn => ⟨n, .inl ⟨a, hn⟩⟩
  | panic => exact fun n hn => ⟨n, .inr hn⟩
  | call e k ih =>
      intro n hn
      -- the program waits for its next move, at the first place from `n` on
      have hwait : ∀ d, (∀ i, i < d → ∀ choice, moves (n + i) ≠ .own choice) →
          (cfg.after answer change moves (n + d)).rest = .call e k := by
        intro d
        induction d with
        | zero => exact fun _ => hn
        | succ d ihd =>
            intro hnone
            have hprev := ihd fun i hi => hnone i (Nat.lt_succ_of_lt hi)
            cases hmove : moves (n + d) with
            | own choice => exact absurd hmove (hnone d (Nat.lt_succ_self d) choice)
            | other m =>
                rw [← Nat.add_assoc, after, hmove]
                exact hprev
      have hexists : ∃ d, ∃ choice, moves (n + d) = .own choice := by
        obtain ⟨m, hle, hm⟩ := hfair n
        exact ⟨m - n, by rwa [Nat.add_sub_cancel' hle]⟩
      classical
      obtain ⟨choice, hchoice⟩ := Nat.find_spec hexists
      set m := n + Nat.find hexists with hm
      have hcall : (cfg.after answer change moves m).rest = .call e k :=
        hwait (Nat.find hexists) fun i hi choice hi' => Nat.find_min hexists hi ⟨choice, hi'⟩
      refine ih (answer (cfg.after answer change moves m).shared choice e).1 (m + 1) ?_
      rw [after, hchoice, play, hcall]

end Config

end Program
