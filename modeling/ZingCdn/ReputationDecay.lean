import Mathlib.Data.List.Induction
import ZingCdn.Blacklist

/-!
# Idle Time and Reputation

A report on a peer adds its points to the score and the time to `last_seen`. Scores are meant
to decay towards zero over time: `record_success` ends with `apply_decay`, which takes a
point off for every hour since `last_seen`. But by then `last_seen` is the call itself, so the
hours counted are those between two readings of the clock in one call, and idle time never
costs anything (`getScore_record`): a score is the sum of the points reported, whatever the
times (`getScore_recordAll`).

## Main results

* `getScore_recordAll`: a score is the sum of the points of the reports on the peer.
* `score_never_decays`: after an idle hour no success leaves the decayed score.
-/

namespace ZingCdn

/-! ### Histories of reports -/

/-- The reports on a peer. -/
inductive PeerReport
  | success
  | corruption
  | dropped
  | falseClaim
deriving DecidableEq, Repr

/-- The points of a report. -/
def PeerReport.points : PeerReport → ℤ
  | .success => 1
  | .corruption => -3
  | .dropped => -1
  | .falseClaim => -5

/-- A call that records a report, with its readings of the clock; the second one is that of
`apply_decay`, and only a success makes it. -/
structure ReportCall where
  report : PeerReport
  peerId : String
  now : ℤ
  later : ℤ

namespace PeerReputationTable

/-- A call on the table. -/
def record (self : PeerReputationTable) (call : ReportCall) : PeerReputationTable :=
  match call.report with
  | .success => self.recordSuccess call.peerId call.now call.later
  | .corruption => self.recordCorruption call.peerId call.now
  | .dropped => self.recordDropped call.peerId call.now
  | .falseClaim => self.recordFalseClaim call.peerId call.now

/-- The table after a history of calls. -/
def recordAll (history : List ReportCall) : PeerReputationTable := history.foldl record new

/-- The last report comes last. -/
theorem recordAll_concat (history : List ReportCall) (call : ReportCall) :
    recordAll (history ++ [call]) = (recordAll history).record call := by
  rw [recordAll, List.foldl_concat]
  rfl

end PeerReputationTable

/-- The last call of a history on a peer. -/
def previousCall (history : List ReportCall) (peerId : String) : Option ReportCall :=
  (history.filter fun call => call.peerId = peerId).getLast?

/-- The score without the decay and the hours since an earlier time, as the decay is meant. -/
def decayedScore (score before now : ℤ) : ℤ :=
  max 0 (score - (now - before) / (scoreDecayIntervalSecs * 1000000000))

/-- The two readings of a call are less than an hour and a second apart. -/
def ReportCall.Brief (call : ReportCall) : Prop :=
  call.later - call.now < 3601000000000

/-! ### Scores -/

/-- The score is an `i32`. -/
def IsI32 (n : ℤ) : Prop := -2147483648 ≤ n ∧ n < 2147483648

/-- What is cut to 32 bits fits them. -/
theorem isI32_toI32 (n : ℤ) : IsI32 (toI32 n) := by
  have hle : -(((4294967296 : ℕ) : ℤ) / 2) ≤ toI32 n := Int.le_bmod (by decide)
  have hlt : toI32 n < (((4294967296 : ℕ) : ℤ) + 1) / 2 := Int.bmod_lt (by decide)
  constructor <;> omega

/-- So does a score raised to zero. -/
theorem isI32_max_zero {n : ℤ} (h : IsI32 n) : IsI32 (max n 0) := by
  obtain ⟨hle, hlt⟩ := h
  constructor <;> omega

/-- What fits is not cut. -/
theorem toI32_of_isI32 {n : ℤ} (h : IsI32 n) : toI32 n = n := by
  obtain ⟨hle, hlt⟩ := h
  exact Int.bmod_eq_of_le (by omega) (by omega)

/-- The sum of wrapped points is the wrapped sum. -/
theorem toI32_add (m n : ℤ) : toI32 (toI32 m + n) = toI32 (m + n) :=
  Int.bmod_add_bmod

/-- Within one brief call nothing decays. -/
theorem applyDecay_of_lt {entry : PeerScore} {now : ℤ}
    (h : now - entry.lastSeen < 3601000000000) : entry.applyDecay now = entry := by
  have helapsed : (now - entry.lastSeen).tdiv 1000000000 ≤ scoreDecayIntervalSecs :=
    Int.tdiv_le_tdiv (by omega) (Int.le_sub_one_of_lt h)
  rw [PeerScore.applyDecay, if_neg fun hdecays => absurd hdecays.1 (not_lt.mpr helapsed)]

namespace PeerReputationTable

variable {table : PeerReputationTable} {peerId : String}

/-- The score of the peer that is updated, and of the others. -/
theorem getScore_update {entry : PeerScore} {peer : String} :
    getScore (Function.update table peer (some entry)) peerId =
      if peerId = peer then some entry.score else table.getScore peerId := by
  by_cases hpeer : peerId = peer
  · subst hpeer
    rw [if_pos rfl, getScore, Function.update_self, Option.map_some]
  · rw [if_neg hpeer, getScore, Function.update_of_ne hpeer, getScore]

/-- A peer without an entry starts at zero. -/
theorem score_entry (peer : String) (now : ℤ) :
    (table.entry peer now).score = (table.getScore peer).getD 0 := by
  rw [entry, getScore]
  cases table peer <;> rfl

/-- A success adds one point when its own clock readings are close. -/
theorem getScore_recordSuccess {peer : String} {now later : ℤ}
    (hbrief : later - now < 3601000000000) :
    (table.recordSuccess peer now later).getScore peerId =
      if peerId = peer then some (toI32 ((table.getScore peer).getD 0 + 1))
      else table.getScore peerId := by
  rw [recordSuccess, applyDecay_of_lt hbrief, getScore_update, ← score_entry peer now]

/-- A fault takes its points. -/
theorem getScore_recordFault (peer : String) (now points : ℤ) {count : PeerScore → PeerScore} :
    (table.recordFault peer now points count).getScore peerId =
      if peerId = peer then some (toI32 ((table.getScore peer).getD 0 - points))
      else table.getScore peerId := by
  rw [recordFault, getScore_update, ← score_entry peer now]

/-- **What a call does to the scores**: it adds its points to the score of its peer. -/
theorem getScore_record {call : ReportCall} (hbrief : call.Brief) :
    (table.record call).getScore peerId =
      if peerId = call.peerId then
        some (toI32 ((table.getScore call.peerId).getD 0 + call.report.points))
      else table.getScore peerId := by
  obtain ⟨report, peer, now, later⟩ := call
  cases report with
  | success => exact getScore_recordSuccess hbrief
  | corruption =>
      simp only [record, recordCorruption_eq, getScore_recordFault]
      rfl
  | dropped =>
      simp only [record, recordDropped, getScore_recordFault]
      rfl
  | falseClaim =>
      simp only [record, recordFalseClaim, getScore_recordFault]
      rfl

/-- **Idle time costs nothing.** After brief calls, the score of a peer is the sum of the
points reported, at whatever times; a peer without a report has none. -/
theorem getScore_recordAll (history : List ReportCall) (hbrief : ∀ call ∈ history, call.Brief)
    (peerId : String) :
    (recordAll history).getScore peerId =
      if (history.filter fun call => call.peerId = peerId).isEmpty then none
      else some (toI32
        ((history.filter fun call => call.peerId = peerId).map (·.report.points)).sum) := by
  induction history using List.reverseRecOn with
  | nil => rfl
  | append_singleton history call ih =>
      obtain ⟨hhistory, hcall⟩ := List.forall_mem_append.mp hbrief
      specialize ih hhistory
      rw [recordAll_concat, getScore_record (hcall call List.mem_cons_self)]
      by_cases hpeer : peerId = call.peerId
      · subst hpeer
        rw [ih, if_pos rfl]
        by_cases hnone : (history.filter fun c => c.peerId = call.peerId) = []
        · simp [hnone]
        · simp [hnone, toI32_add]
      · have hother : ¬ call.peerId = peerId := fun h => hpeer h.symm
        simp [hpeer, hother, ih]

/-! ### Entries -/

/-- A decayed score fits 32 bits. -/
theorem isI32_applyDecay {entry : PeerScore} (hentry : IsI32 entry.score) (now : ℤ) :
    IsI32 (entry.applyDecay now).score := by
  rw [PeerScore.applyDecay]
  split
  · exact isI32_max_zero (isI32_toI32 _)
  · exact hentry

/-- Decay does not touch the time of the last report. -/
theorem lastSeen_applyDecay (entry : PeerScore) (now : ℤ) :
    (entry.applyDecay now).lastSeen = entry.lastSeen := by
  rw [PeerScore.applyDecay]
  split <;> rfl

/-- A call writes the entry of its peer, with its own time, however long it takes. -/
theorem exists_record (table : PeerReputationTable) (call : ReportCall) :
    ∃ entry : PeerScore, IsI32 entry.score ∧ entry.lastSeen = call.now ∧
      table.record call = Function.update table call.peerId (some entry) := by
  obtain ⟨report, peer, now, later⟩ := call
  cases report with
  | success => exact ⟨_, isI32_applyDecay (isI32_toI32 _) later, lastSeen_applyDecay _ later, rfl⟩
  | corruption | dropped | falseClaim => exact ⟨_, isI32_toI32 _, rfl, rfl⟩

/-- The entry of a peer carries the time of the last call on it. -/
theorem recordAll_of_previousCall {history : List ReportCall} {previous : ReportCall}
    (hprevious : previousCall history peerId = some previous) :
    ∃ entry, recordAll history peerId = some entry ∧ IsI32 entry.score ∧
      entry.lastSeen = previous.now := by
  induction history using List.reverseRecOn with
  | nil => cases hprevious
  | append_singleton history call ih =>
      obtain ⟨entry, hscore, hseen, hrecord⟩ := exists_record (recordAll history) call
      rw [recordAll_concat, hrecord]
      by_cases hpeer : call.peerId = peerId
      · have hlast : previousCall (history ++ [call]) peerId = some call := by
          simp [previousCall, hpeer]
        obtain rfl : call = previous := Option.some.inj (hlast.symm.trans hprevious)
        exact ⟨entry, by rw [hpeer, Function.update_self], hscore, hseen⟩
      · have hsame : previousCall (history ++ [call]) peerId = previousCall history peerId := by
          simp [previousCall, hpeer]
        obtain ⟨old, hold⟩ := ih (hsame ▸ hprevious)
        exact ⟨old, by rw [Function.update_of_ne fun h => hpeer h.symm, hold.1], hold.2⟩

/-! ### Decay -/

/-- **Scores never decay.** Whatever happened before, and when, a success of a peer that was idle for
more than an hour leaves its score, when the success makes it positive, at something else
than the score decayed by the hours of idleness. -/
theorem score_never_decays (history : List ReportCall) {previous call : ReportCall}
    (hcall : call.report = .success) (hbrief : call.Brief)
    (hprevious : previousCall history call.peerId = some previous)
    (hidle : scoreDecayIntervalSecs * 1000000000 < call.now - previous.now) :
    ∃ before, (recordAll history).getScore call.peerId = some before ∧
      (0 < before + 1 → (recordAll (history ++ [call])).getScore call.peerId ≠
        some (decayedScore (before + 1) previous.now call.now)) := by
  obtain ⟨entry, hentry, ⟨hlow, hhigh⟩, -⟩ := recordAll_of_previousCall hprevious
  have hbefore : (recordAll history).getScore call.peerId = some entry.score := by
    rw [getScore, hentry, Option.map_some]
  refine ⟨entry.score, hbefore, fun hpositive => ?_⟩
  generalize entry.score = before at *
  have hafter : (recordAll (history ++ [call])).getScore call.peerId
      = some (toI32 (before + 1)) := by
    rw [recordAll_concat, getScore_record hbrief, if_pos rfl, hbefore, hcall]
    rfl
  have hhours : 1 ≤ (call.now - previous.now) / (scoreDecayIntervalSecs * 1000000000) := by
    rw [scoreDecayIntervalSecs] at hidle ⊢
    omega
  have hdecayed : 0 ≤ decayedScore (before + 1) previous.now call.now ∧
      decayedScore (before + 1) previous.now call.now < before + 1 := by
    rw [decayedScore]
    omega
  rw [hafter]
  intro hsame
  have hsame := Option.some.inj hsame
  -- the largest score wraps to a negative one, which the decayed score is not either
  by_cases hwraps : before + 1 = 2147483648
  · have hnegative : toI32 (before + 1) = -2147483648 := by
      rw [hwraps]
      rfl
    omega
  · rw [toI32_of_isI32 ⟨by omega, by omega⟩] at hsame
    omega

end PeerReputationTable

/-! ### Two idle hours -/

/-- Five successes at the start. -/
def fiveSuccesses : List ReportCall := List.replicate 5 ⟨.success, "p", 0, 0⟩

/-- A success two hours later. -/
def successAfterTwoHours : ReportCall := ⟨.success, "p", 7200000000000, 7200000000000⟩

/-- **Two idle hours cost nothing**: the sixth success leaves six points, not four. -/
theorem two_idle_hours_free :
    ((PeerReputationTable.recordAll fiveSuccesses).getScore "p" = some 5 ∧
      (previousCall fiveSuccesses "p").map ReportCall.now = some 0) ∧
    (PeerReputationTable.recordAll (fiveSuccesses ++ [successAfterTwoHours])).getScore "p"
      = some 6 ∧
    decayedScore (5 + 1) 0 7200000000000 = 4 := by
  decide

/-- Two idle hours after five successes. -/
theorem score_never_decays_two_hours :
    ∃ before, (PeerReputationTable.recordAll fiveSuccesses).getScore "p" = some before ∧
      (0 < before + 1 →
        (PeerReputationTable.recordAll (fiveSuccesses ++ [successAfterTwoHours])).getScore "p"
          ≠ some (decayedScore (before + 1) 0 7200000000000)) := by
  have hsuccess : successAfterTwoHours.report = .success := rfl
  have hbrief : successAfterTwoHours.Brief := by
    change (7200000000000 : ℤ) - 7200000000000 < 3601000000000
    omega
  have hprevious : previousCall fiveSuccesses successAfterTwoHours.peerId
      = some ⟨.success, "p", 0, 0⟩ := rfl
  have hdiffers := PeerReputationTable.score_never_decays fiveSuccesses hsuccess hbrief hprevious
    (by decide)
  exact hdiffers

end ZingCdn
