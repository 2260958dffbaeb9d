import ZingCdn.Library.Interleaving
import ZingCdn.Liveness
import ZingCdn.Steering

/-!
# Blacklisted Peers

The reputation table that the resolves of a node share, and what it is for: a peer whose
score falls to the threshold is blacklisted. No strategy asks the table. A resolve turns to
the peers of its last list of connected peers, whatever their scores are, so a blacklisted
peer is paid and asked like any other.

Resolves run in a pool over the table. A step is careful when it lists no blacklisted peer
and its report blacklists nobody whom another resolve has on its list; as long as every step
is careful, nobody blacklisted is ever turned to.

## Main results

* `blacklist_effective`: in every run of careful steps, no effect turns to a blacklisted peer.
* `not_blacklist_effective`: the fourth report of bad data blacklists a peer, and the resolve
  that made it asks the same peer next.
-/

open Program Program.Prog

namespace ZingCdn

variable {PeerId : Type}

/-! ### The reputation table -/

/-- `BLACKLIST_THRESHOLD`. -/
def blacklistThreshold : ℤ := -10

/-- `SCORE_DECAY_INTERVAL_SECS`. -/
def scoreDecayIntervalSecs : ℤ := 3600

/-- The value of an `i32` after wrapping. -/
def toI32 (n : ℤ) : ℤ := n.bmod 4294967296

/-- What the table keeps of a peer. Times are readings of the clock in nanoseconds. -/
structure PeerScore where
  peerId : String
  score : ℤ
  lastSeen : ℤ
  successfulStreams : ℕ
  failedVerifications : ℕ
  droppedConnections : ℕ
  falseClaims : ℕ
deriving DecidableEq

/-- The entry of a peer without one. -/
def PeerScore.new (peerId : String) (now : ℤ) : PeerScore := ⟨peerId, 0, now, 0, 0, 0, 0⟩

/-- `apply_decay`, at a reading of the clock. -/
def PeerScore.applyDecay (entry : PeerScore) (now : ℤ) : PeerScore :=
  let elapsed := (now - entry.lastSeen).tdiv 1000000000
  if scoreDecayIntervalSecs < elapsed ∧ 0 < entry.score then
    let decays := elapsed / scoreDecayIntervalSecs
    { entry with score := max (toI32 (entry.score - toI32 decays)) 0 }
  else entry

/-- The scores by peer id. -/
abbrev PeerReputationTable : Type := String → Option PeerScore

namespace PeerReputationTable

/-- `PeerReputationTable::new`. -/
def new : PeerReputationTable := fun _ => none

/-- `scores.entry(peer_id).or_insert_with(..)`. -/
def entry (self : PeerReputationTable) (peerId : String) (now : ℤ) : PeerScore :=
  (self peerId).getD (.new peerId now)

/-- `record_success`, at two readings of the clock. -/
def recordSuccess (self : PeerReputationTable) (peerId : String) (now later : ℤ) :
    PeerReputationTable :=
  let entry := self.entry peerId now
  let entry := { entry with
    score := toI32 (entry.score + 1)
    successfulStreams := (entry.successfulStreams + 1) % 4294967296
    lastSeen := now }
  Function.update self peerId (some (entry.applyDecay later))

/-- `record_corruption`, at a reading of the clock. -/
def recordCorruption (self : PeerReputationTable) (peerId : String) (now : ℤ) :
    PeerReputationTable :=
  let entry := self.entry peerId now
  Function.update self peerId (some { entry with
    score := toI32 (entry.score - 3)
    failedVerifications := (entry.failedVerifications + 1) % 4294967296
    lastSeen := now })

/-- What the reports of a fault have in common: some points off, one more of its kind. -/
def recordFault (self : PeerReputationTable) (peerId : String) (now points : ℤ)
    (count : PeerScore → PeerScore) : PeerReputationTable :=
  let entry := self.entry peerId now
  Function.update self peerId (some { count entry with
    score := toI32 (entry.score - points)
    lastSeen := now })

/-- `record_dropped`, at a reading of the clock. -/
def recordDropped (self : PeerReputationTable) (peerId : String) (now : ℤ) :
    PeerReputationTable :=
  self.recordFault peerId now 1 fun entry =>
    { entry with droppedConnections := (entry.droppedConnections + 1) % 4294967296 }

/-- `record_false_claim`, at a reading of the clock. -/
def recordFalseClaim (self : PeerReputationTable) (peerId : String) (now : ℤ) :
    PeerReputationTable :=
  self.recordFault peerId now 5 fun entry =>
    { entry with falseClaims := (entry.falseClaims + 1) % 4294967296 }

/-- Bad data is such a report. -/
theorem recordCorruption_eq (self : PeerReputationTable) (peerId : String) (now : ℤ) :
    self.recordCorruption peerId now = self.recordFault peerId now 3 fun entry =>
      { entry with failedVerifications := (entry.failedVerifications + 1) % 4294967296 } := rfl

/-- `get_score`. -/
def getScore (self : PeerReputationTable) (peerId : String) : Option ℤ :=
  (self peerId).map PeerScore.score

/-- `is_blacklisted`. -/
def isBlacklisted (self : PeerReputationTable) (peerId : String) : Bool :=
  match self peerId with
  | some s => decide (s.score ≤ blacklistThreshold)
  | none => false

end PeerReputationTable

/-- The effects that report on a peer. -/
def Effect.reports : Effect PeerId → Bool
  | .recordCorruption _ | .recordSuccess _ => true
  | _ => false

/-- What an effect of a resolve does to the table: a report is recorded, at some readings of
the clock, and everything else leaves the table alone. -/
inductive TableStep : PeerReputationTable → (e : Effect PeerId) → e.Ans →
    PeerReputationTable → Prop
  | corruption (table : PeerReputationTable) (peerId : String) (now : ℤ) (u : Unit) :
      TableStep table (.recordCorruption peerId) u (table.recordCorruption peerId now)
  | success (table : PeerReputationTable) (peerId : String) (now later : ℤ) (u : Unit) :
      TableStep table (.recordSuccess peerId) u (table.recordSuccess peerId now later)
  | other (table : PeerReputationTable) (e : Effect PeerId) (r : e.Ans) :
      e.reports = false → TableStep table e r table

/-! ### Resolves over one table -/

/-- Resolves in progress over one reputation table. -/
abbrev ResolvePool (PeerId : Type) : Type :=
  Pool (@Effect.Ans PeerId) PeerReputationTable BlobId (ZingResult ResolveResult)

section Careful

variable (self : Resolver PeerId) (lib : Externals PeerId)

/-- The peer is blacklisted. -/
def Blacklisted (table : PeerReputationTable) (peer : PeerId) : Prop :=
  table.isBlacklisted (lib.peerIdToString peer) = true

instance (table : PeerReputationTable) (peer : PeerId) : Decidable (Blacklisted lib table peer) :=
  inferInstanceAs (Decidable (table.isBlacklisted (lib.peerIdToString peer) = true))

/-- An event lists no blacklisted peer, and its report blacklists nobody whom another
resolve has on its list. -/
structure Careful (table table' : PeerReputationTable)
    (others : List (Task (@Effect.Ans PeerId) BlobId (ZingResult ResolveResult)))
    (e : Effect PeerId) (r : e.Ans) : Prop where
  lists : ∀ peer ∈ e.relist [] r, ¬ Blacklisted lib table peer
  reports : ∀ task ∈ others, ∀ peer ∈ live task.history,
    Blacklisted lib table' peer → Blacklisted lib table peer

variable [DecidableEq PeerId]

/-- A step of the pool whose event is careful. -/
inductive CarefulStep : ResolvePool PeerId → ResolvePool PeerId → Prop
  | start (table : PeerReputationTable)
      (tasks : List (Task (@Effect.Ans PeerId) BlobId (ZingResult ResolveResult)))
      (blobId : BlobId) :
      CarefulStep ⟨table, tasks⟩ ⟨table, ⟨blobId, [], self.resolve lib blobId⟩ :: tasks⟩
  | act {table table' : PeerReputationTable}
      {pre post : List (Task (@Effect.Ans PeerId) BlobId (ZingResult ResolveResult))}
      {blobId : BlobId} {h : Trace PeerId} {e : Effect PeerId}
      {k : e.Ans → Action PeerId (ZingResult ResolveResult)} (r : e.Ans) :
      TableStep table e r table' → Careful lib table table' (pre ++ post) e r →
        CarefulStep ⟨table, pre ++ ⟨blobId, h, .call e k⟩ :: post⟩
          ⟨table', pre ++ ⟨blobId, h ++ [⟨e, r⟩], k r⟩ :: post⟩

/-- No resolve has a blacklisted peer on its list. -/
def Clean (pool : ResolvePool PeerId) : Prop :=
  ∀ task ∈ pool.tasks, ∀ peer ∈ live task.history, ¬ Blacklisted lib pool.shared peer

variable {self lib}

/-- A careful step is one of the pool. -/
theorem CarefulStep.step {pool pool' : ResolvePool PeerId} (hs : CarefulStep self lib pool pool') :
    Pool.Step TableStep (self.resolve lib) pool pool' := by
  cases hs with
  | start table tasks blobId => exact .start table tasks blobId
  | act r htable => exact .act r htable

omit [DecidableEq PeerId] in
/-- After an event nobody is listed but those it lists, and those before if it is no
report. -/
theorem mem_relist {listed : List PeerId} {e : Effect PeerId} {r : e.Ans} {peer : PeerId}
    (hpeer : peer ∈ e.relist listed r) :
    peer ∈ e.relist [] r ∨ (peer ∈ listed ∧ e.reports = false) := by
  cases e with
  | await cmd timeout =>
      have hreply : ∀ listing : Option (List PeerId), peer ∈ listing.getD listed →
          peer ∈ listing.getD [] ∨
            (peer ∈ listed ∧ (Effect.await cmd timeout).reports = false) := by
        rintro (_ | l) hmem
        · exact .inr ⟨hmem, rfl⟩
        · exact .inl hmem
      exact hreply (cmd.listing? r) hpeer
  | recordCorruption | recordSuccess => cases hpeer
  | _ => exact .inr ⟨hpeer, rfl⟩

omit [DecidableEq PeerId] in
/-- Only a report changes the table. -/
theorem TableStep.eq_of_reports {table table' : PeerReputationTable} {e : Effect PeerId}
    {r : e.Ans} (hs : TableStep table e r table') (he : e.reports = false) : table' = table := by
  cases hs with
  | corruption | success => cases he
  | other => rfl

omit [DecidableEq PeerId] in
/-- An event that reports lists nobody. -/
theorem relist_of_reports {e : Effect PeerId} (he : e.reports = true) (r : e.Ans) :
    e.relist [] r = [] := by
  cases e with
  | recordCorruption | recordSuccess => rfl
  | _ => cases he

/-- **A careful step lists nobody blacklisted.** -/
theorem Clean.step {pool pool' : ResolvePool PeerId} (hclean : Clean lib pool)
    (hs : CarefulStep self lib pool pool') : Clean lib pool' := by
  cases hs with
  | start table tasks blobId =>
      intro task htask peer hpeer
      rcases List.mem_cons.mp htask with rfl | htask
      · cases hpeer
      · exact hclean task htask peer hpeer
  | @act table table' pre post blobId h e k r htable hcareful =>
      have hothers : ∀ task ∈ pre ++ post, ∀ peer ∈ live task.history,
          ¬ Blacklisted lib table' peer := by
        intro task htask peer hpeer hbad
        refine hclean task ?_ peer hpeer (hcareful.reports task htask peer hpeer hbad)
        rcases List.mem_append.mp htask with htask | htask
        · exact List.mem_append_left _ htask
        · exact List.mem_append_right _ (List.mem_cons_of_mem _ htask)
      intro task htask peer hpeer
      rcases List.mem_append.mp htask with htask | htask
      · exact hothers task (List.mem_append_left _ htask) peer hpeer
      rcases List.mem_cons.mp htask with rfl | htask
      · rw [live_concat] at hpeer
        have hkeeps : e.reports = false := by
          rcases mem_relist hpeer with hlisted | ⟨-, hkeeps⟩
          · refine Bool.eq_false_iff.mpr fun hreports => ?_
            rw [relist_of_reports hreports r] at hlisted
            cases hlisted
          · exact hkeeps
        obtain rfl := htable.eq_of_reports hkeeps
        rcases mem_relist hpeer with hlisted | ⟨hlisted, -⟩
        · exact hcareful.lists peer hlisted
        · exact hclean ⟨blobId, h, .call e k⟩ (by simp) peer hlisted
      · exact hothers task (List.mem_append_right _ htask) peer hpeer

/-- The states some run of careful steps ends in, from any table. -/
def CarefullyReachable (self : Resolver PeerId) (lib : Externals PeerId) :
    ResolvePool PeerId → Prop :=
  Transition.Reachable (fun pool => pool.tasks = []) (CarefulStep self lib)

/-- **Blacklisting is effective in runs of careful steps**: no effect that a resolve is
about to perform pays a blacklisted peer or asks it for data. -/
theorem blacklist_effective {pool : ResolvePool PeerId}
    (hpool : CarefullyReachable self lib pool) :
    ∀ task ∈ pool.tasks, ∀ e k peer, task.rest = .call e k →
      contact? task.history e = some peer → ¬ Blacklisted lib pool.shared peer := by
  intro task htask e k peer hrest hcontact
  have hclean : Clean lib pool := by
    refine Transition.Reachable.invariant (Clean lib) ?_ (fun _ _ => Clean.step) hpool
    intro pool₀ hnone task htask
    rw [hnone] at htask
    cases htask
  have hreach : Pool.Reachable (fun _ => True) TableStep (self.resolve lib) pool :=
    Transition.Reachable.mono (fun _ _ => CarefulStep.step)
      (hpool.imp fun _ h₀ => ⟨⟨trivial, h₀.1⟩, h₀.2⟩)
  have hsound := Pool.rely_guarantee (fun _ => True) (fun _ => steeredContract self lib)
    (fun _ _ _ => True) (fun _ _ => trivial) (resolve_steered self lib)
    (fun _ _ _ _ _ _ _ _ _ => ⟨trivial, trivial⟩) hreach
  have hmeets := hsound.2 task htask
  rw [hrest] at hmeets
  exact hclean task htask peer (hmeets.1.contact peer hcontact)

end Careful

/-! ### A blacklisted peer is asked -/

/-- The table after an event, with the clock at zero. -/
def tableAfter (table : PeerReputationTable) : Event (@Effect.Ans ℕ) → PeerReputationTable
  | ⟨.recordCorruption peerId, _⟩ => table.recordCorruption peerId 0
  | ⟨.recordSuccess peerId, _⟩ => table.recordSuccess peerId 0 0
  | _ => table

theorem tableStep_tableAfter (table : PeerReputationTable) (ev : Event (@Effect.Ans ℕ)) :
    TableStep table ev.1 ev.2 (tableAfter table ev) := by
  obtain ⟨e, r⟩ := ev
  cases e with
  | recordCorruption peerId => exact .corruption table peerId 0 r
  | recordSuccess peerId => exact .success table peerId 0 0 r
  | _ => exact .other table _ r rfl

/-- A resolve whose only peer returns bad data, again and again. -/
def garbageRun : Trace ℕ × Option (ZingResult ResolveResult) :=
  exec garbageEnv [] (onlineResolver.resolve sampleExternals (sampleBlobId [1]))

/-- Its second fetch of a range of the blob, after the first report. -/
def secondFetch : Effect ℕ :=
  .send (.fetchRange 0 (sampleBlobId [1]).bytes 0 Resolver.rangeChunk zeroBytes32)

/-- A resolve that starts now may perform the first part of that run. -/
theorem exists_garbageRun (n : ℕ) (table : PeerReputationTable)
    (others : List (Task (@Effect.Ans ℕ) BlobId (ZingResult ResolveResult))) :
    ∃ rest : Action ℕ (ZingResult ResolveResult),
      rest.Runs (garbageRun.1.drop n) garbageRun.2 ∧
        Relation.ReflTransGen
          (Pool.Step TableStep (onlineResolver.resolve sampleExternals)) ⟨table, others⟩
          ⟨(garbageRun.1.take n).foldl tableAfter table,
            ⟨sampleBlobId [1], garbageRun.1.take n, rest⟩ :: others⟩ := by
  have hrun : (onlineResolver.resolve sampleExternals (sampleBlobId [1])).Runs
      (garbageRun.1.take n ++ garbageRun.1.drop n) garbageRun.2 := by
    rw [List.take_append_drop]
    exact runs_exec garbageEnv [] _
  obtain ⟨rest, hrest, hsteps⟩ :=
    Pool.exists_run_alone (.of_next tableStep_tableAfter table _) hrun (sampleBlobId [1]) [] others
  exact ⟨rest, hrest, .head (.start table others (sampleBlobId [1])) hsteps⟩

/-- **A blacklisted peer is asked for data**: one resolve reports bad data three times, the
next one reports the fourth time and sends another fetch to the same peer. -/
theorem not_blacklist_effective :
    ∃ pool : ResolvePool ℕ, Pool.Reachable (fun table => table = PeerReputationTable.new)
        TableStep (onlineResolver.resolve sampleExternals) pool ∧
      ∃ task ∈ pool.tasks, ∃ k, task.rest = .call secondFetch k ∧
        contact? task.history secondFetch = some 0 ∧
        Blacklisted sampleExternals pool.shared 0 := by
  obtain ⟨done, -, hfirst⟩ :=
    exists_garbageRun garbageRun.1.length PeerReputationTable.new []
  obtain ⟨rest, hrest, hsecond⟩ := exists_garbageRun 10 _ _
  have hinit : Pool.Reachable (fun table => table = PeerReputationTable.new) TableStep
      (onlineResolver.resolve sampleExternals) ⟨PeerReputationTable.new, []⟩ :=
    Transition.Reachable.of_init ⟨rfl, rfl⟩
  refine ⟨_, (hinit.run hfirst).run hsecond, _, List.mem_cons_self, ?_⟩
  have hnext : (garbageRun.1.drop 10).head?.map Sigma.fst = some secondFetch := by
    decide +kernel
  have hscore : Blacklisted sampleExternals ((garbageRun.1.take 10).foldl tableAfter
      ((garbageRun.1.take garbageRun.1.length).foldl tableAfter PeerReputationTable.new)) 0 := by
    decide +kernel
  rcases hdrop : garbageRun.1.drop 10 with - | ⟨⟨e, r⟩, post⟩
  · rw [hdrop] at hnext
    cases hnext
  · rw [hdrop] at hnext hrest
    obtain rfl : e = secondFetch := Option.some.inj hnext
    cases hrest with
    | call r hrest => exact ⟨_, rfl, rfl, hscore⟩

/-! ### A careful run -/

/-- A resolve alone takes a careful step when it does not report and lists nobody
blacklisted. -/
theorem CarefulStep.alone [DecidableEq PeerId] {self : Resolver PeerId} {lib : Externals PeerId}
    {table : PeerReputationTable} {blobId : BlobId} {h : Trace PeerId} {e : Effect PeerId}
    {k : e.Ans → Action PeerId (ZingResult ResolveResult)} (r : e.Ans) (he : e.reports = false)
    (hlists : ∀ peer ∈ e.relist [] r, ¬ Blacklisted lib table peer) :
    CarefulStep self lib ⟨table, [⟨blobId, h, .call e k⟩]⟩
      ⟨table, [⟨blobId, h ++ [⟨e, r⟩], k r⟩]⟩ :=
  @CarefulStep.act PeerId self lib _ table table [] [] blobId h e k r (.other table e r he)
    ⟨hlists, by simp⟩

/-- The probe of the only connected peer. -/
def firstProbe : Effect ℕ := .send (.fetchRange 0 (sampleBlobId [1]).bytes 0 8 zeroBytes32)

theorem blacklist_effective_firstProbe :
    ∃ pool, CarefullyReachable onlineResolver sampleExternals pool ∧
      ∃ task ∈ pool.tasks, ∃ k, task.rest = .call firstProbe k ∧
        contact? task.history firstProbe = some 0 ∧
        ¬ Blacklisted sampleExternals pool.shared 0 := by
  have hstarted := (Transition.Reachable.of_init rfl :
    CarefullyReachable onlineResolver sampleExternals ⟨PeerReputationTable.new, []⟩).snoc
      (.start _ _ (sampleBlobId [1]))
  have hmissed := hstarted.snoc (.alone
    (e := .storeGet (sampleExternals.blobIdToString (sampleBlobId [1])))
    (.ok none : Except String (Option Bytes)) rfl (by rintro peer ⟨⟩))
  have hasked := hmissed.snoc (.alone (e := .send .getConnectedPeers) true rfl
    (by rintro peer ⟨⟩))
  have hlisted := hasked.snoc (.alone (e := .await .getConnectedPeers none)
    (some [0] : Option (List ℕ)) rfl fun peer _ => by rintro ⟨⟩)
  exact ⟨_, hlisted, _, List.mem_cons_self, _, rfl, rfl,
    blacklist_effective hlisted _ List.mem_cons_self _ _ 0 rfl rfl⟩

end ZingCdn
