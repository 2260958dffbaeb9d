import ZingCdn.HonestSeeder
import ZingCdn.Library.Interleaving

/-!
# Who Is Blamed for Corrupted Data

A fetch whose data fails verification costs one peer its reputation: the peer asked, or in
the parallel strategy the lead of the windows. When is that the peer whose bytes were
wrong?

For whole blobs it always is. The two range strategies however verify whatever they hold
when they leave their loop, and they also leave it when a chunk is missing, so a peer is
blamed for a refusal or a timeout; and the lead is blamed for the chunks of the others. A
blamed peer did return wrong bytes as soon as nothing of this kind happened before
(`Served`): its sequential requests inside the blob were answered, and if it led the
windows, so were theirs, and the other peers' chunks were right.

The proof fixes a peer that returns no wrong bytes and shows that no strategy blames it.
Whether it leads is known from the run; when its first chunk is missing, the windows end
without data and nobody is blamed.

## Main results

* `resolve_blameless`: a peer that returns no wrong bytes and is served is not blamed.
* `blame_just`: the same for resolves interleaved in any way.
* `not_blame_just`: a seeder that times out once is blamed for corruption.
-/

open Program Program.Prog

namespace ZingCdn

open Resolver

variable {PeerId : Type}

/-! ### Answers -/

/-- The command asks the peer for bytes of the blob, which truly are the ones given. -/
inductive Asks (blobId : BlobId) (blob : Bytes) (peer : PeerId) :
    P2pCommand PeerId → Bytes → Prop
  | whole (proof : Bytes32) : Asks blobId blob peer (.fetchBlob peer blobId.bytes proof) blob
  | range (offset length : ℕ) (proof : Bytes32) :
      Asks blobId blob peer (.fetchRange peer blobId.bytes offset length proof)
        (slice blob offset length)

/-- The reply to the command brought the data. -/
def Brings (cmd : P2pCommand PeerId) (data : Bytes) : (e : Effect PeerId) → e.Ans → Prop
  | .await cmd' _, reply => cmd' = cmd ∧ Option.bind reply cmd'.data? = some data
  | _, _ => False

/-- The command was lost, or its reply brought no data: a refusal, an error, a timeout. -/
def Unanswered (cmd : P2pCommand PeerId) : (e : Effect PeerId) → e.Ans → Prop
  | .send cmd', sent => cmd' = cmd ∧ sent = false
  | .await cmd' _, reply => cmd' = cmd ∧ Option.bind reply cmd'.data? = none
  | _, _ => False

/-- The peer returned other bytes of the blob than it was asked for. -/
def WrongAnswer (blobId : BlobId) (blob : Bytes) (peer : PeerId) (e : Effect PeerId)
    (r : e.Ans) : Prop :=
  ∃ cmd truth data, Asks blobId blob peer cmd truth ∧ Brings cmd data e r ∧ data ≠ truth

/-! ### Requests that are served -/

section Served

variable (blobId : BlobId) (blob : Bytes) (peer : PeerId)

/-- No sequential request to the peer inside the blob, after the first, goes unanswered. -/
def SequentialServed (e : Effect PeerId) (r : e.Ans) : Prop :=
  ∀ offset proof, 0 < offset → offset < blob.length →
    ¬ Unanswered (.fetchRange peer blobId.bytes offset rangeChunk proof) e r

/-- The peer answers the very first request of the windows, so it leads them. -/
def Leads (e : Effect PeerId) (r : e.Ans) : Prop :=
  ∃ proof data, Brings (.fetchRange peer blobId.bytes 0 chunkSize proof) data e r

/-- No request of the windows inside the blob, after the first, goes unanswered, and up to
the end of the blob the other peers return the right bytes. -/
def WindowsServed (e : Effect PeerId) (r : e.Ans) : Prop :=
  (∀ other offset proof, 0 < offset → offset < blob.length →
    ¬ Unanswered (.fetchRange other blobId.bytes offset chunkSize proof) e r) ∧
  ∀ other, other ≠ peer → ∀ offset proof data, offset ≤ blob.length →
    Brings (.fetchRange other blobId.bytes offset chunkSize proof) data e r →
      data = slice blob offset chunkSize

/-- In the history, the peer's sequential requests are served, and so are the windows if it
leads them. -/
structure Served (t : Trace PeerId) : Prop where
  sequential : ∀ ev ∈ t, SequentialServed blobId blob peer ev.1 ev.2
  windows : (∃ ev ∈ t, Leads blobId peer ev.1 ev.2) →
    ∀ ev ∈ t, WindowsServed blobId blob peer ev.1 ev.2

/-- What is relied on for a peer that returns no wrong bytes, when it is known whether it
leads the windows. -/
structure ServedRely (leads : Prop) (e : Effect PeerId) (r : e.Ans) : Prop where
  right : ¬ WrongAnswer blobId blob peer e r
  sequential : SequentialServed blobId blob peer e r
  windows : leads → WindowsServed blobId blob peer e r
  follows : ¬ leads → ¬ Leads blobId peer e r

/-- The contract not to blame the peer. -/
def blamelessContract (lib : Externals PeerId) (leads : Prop) :
    Contract (@Effect.Ans PeerId) where
  rely _ := ServedRely blobId blob peer leads
  guarantee _ e := e ≠ .recordCorruption (lib.peerIdToString peer)
  mayPanic := True

end Served

/-! ### The strategies -/

section Strategies

variable {self : Resolver PeerId} {lib : Externals PeerId} {blobId : BlobId} {key : String}
  {blob : Bytes} {peer : PeerId} {leads : Prop} {h : Trace PeerId}

/-- Only the end of a fetch blames anybody. -/
theorem quiet_blameless :
    Quiet self lib (blamelessContract blobId blob peer lib leads) where
  benign _ e he _ _ := by
    rintro rfl
    exact he
  sends _ _ := by rintro ⟨⟩
  payments _ e he := by
    rintro rfl
    cases he
  pays _ _ _ _ _ _ _ _ _ _ _ := trivial

/-- What the peer brings is right. -/
theorem ServedRely.eq_truth {e : Effect PeerId} {r : e.Ans}
    (hr : ServedRely blobId blob peer leads e r) {cmd : P2pCommand PeerId} {truth data : Bytes}
    (hasks : Asks blobId blob peer cmd truth) (hbrings : Brings cmd data e r) : data = truth :=
  not_not.mp fun hne => hr.right ⟨cmd, truth, data, hasks, hbrings, hne⟩

variable (hinj : Function.Injective lib.peerIdToString)
  (hid : lib.computeBlobId blob = .ok blobId)
include hinj hid

/-- Ending a fetch blames another peer, or nobody when the data is the blob. -/
theorem finalizeL1Fetch_blameless {other : PeerId} {data : Bytes}
    (hdata : other ≠ peer ∨ data = blob) (err : Option String) :
    Meets (blamelessContract blobId blob peer lib leads) h
      (finalizeL1Fetch lib blobId key other data err) fun _ _ => True := by
  rw [finalizeL1Fetch]
  split
  · rename_i hbad
    refine ⟨?_, fun _ _ => trivial⟩
    rcases hdata with hother | rfl
    · exact fun heq => hother (hinj (Effect.recordCorruption.inj heq))
    · rw [verifyBlobById_eq_ok_iff.mpr hid] at hbad
      cases hbad
  · refine ⟨?_, fun _ _ => ⟨?_, fun _ _ => ⟨?_, fun _ _ => trivial⟩⟩⟩ <;> rintro ⟨⟩

omit hinj hid in
/-- A whole blob from the peer is the blob. -/
theorem fetch_whole_right (other : PeerId) (proof : Bytes32) :
    Meets (blamelessContract blobId blob peer lib leads) h
      (fetch (.fetchBlob other blobId.bytes proof))
      fun _ reply => ∀ data, reply = some data → other ≠ peer ∨ data = blob := by
  refine meets_fetch (by rintro ⟨⟩) (by rintro ⟨⟩) (fun _ data hdata => by cases hdata)
    fun _ reply hreply data hdata => ?_
  by_cases hpeer : other = peer
  · subst hpeer
    exact .inr (hreply.eq_truth (.whole proof) ⟨rfl, hdata⟩)
  · exact .inl hpeer

/-- Whole blobs from the connected peers. -/
theorem directPeersLoop_blameless (l : List PeerId) :
    Meets (blamelessContract blobId blob peer lib leads) h
      (self.directPeersLoop lib blobId key l) fun _ _ => True := by
  induction l generalizing h with
  | nil => trivial
  | cons other rest ih =>
      refine (quiet_blameless.resolvePayment_meets h other _ _).bind fun h₁ payment _ _ => ?_
      refine (fetch_whole_right other _).bind fun h₂ reply _ hreply => ?_
      rcases reply with - | data
      · exact ih
      · exact finalizeL1Fetch_blameless hinj hid (hreply data rfl) _

/-- Whole blobs from the providers of the DHT. -/
theorem tryProviders_blameless [DecidableEq PeerId] :
    Meets (blamelessContract blobId blob peer lib leads) h
      (self.tryProviders lib blobId key) fun _ _ => True := by
  refine quiet_blameless.tryProviders_meets (fun _ => trivial) fun h other proof err => ?_
  refine (fetch_whole_right other proof).mono fun h' reply _ hreply data hdata => ?_
  exact finalizeL1Fetch_blameless hinj hid (hreply data hdata) err

omit hinj hid in
/-- After the first, the peer's chunks are the ranges of the blob. -/
theorem fetch_chunk_right {offset : ℕ} (hpos : 0 < offset) (proof : Bytes32) :
    Meets (blamelessContract blobId blob peer lib leads) h
      (fetch (.fetchRange peer blobId.bytes offset rangeChunk proof))
      fun _ reply => RangeAnswer blob offset rangeChunk reply := by
  have hnone : ∀ e r, ServedRely blobId blob peer leads e r →
      Unanswered (.fetchRange peer blobId.bytes offset rangeChunk proof) e r →
        RangeAnswer blob offset rangeChunk none := by
    intro e r hr hunanswered
    have hend : ¬ offset < blob.length := fun hlt =>
      hr.sequential offset proof hpos hlt hunanswered
    rw [RangeAnswer, if_neg hend]
    exact .inl rfl
  refine meets_fetch (by rintro ⟨⟩) (by rintro ⟨⟩) (fun hlost => hnone _ _ hlost ⟨rfl, rfl⟩)
    fun _ reply hreply => ?_
  rcases hdata : Option.bind reply (P2pCommand.data? _) with - | data
  · exact hnone _ _ hreply ⟨rfl, hdata⟩
  · have hslice := hreply.eq_truth (.range offset rangeChunk proof) ⟨rfl, hdata⟩
    subst hslice
    rw [RangeAnswer]
    split
    · rfl
    · rename_i hend
      exact .inr (congrArg some ((slice_eq_nil_iff (by decide)).mpr (by omega)))

/-- Sequential ranges. -/
theorem directPeersRangeLoop_blameless (l : List PeerId) :
    Meets (blamelessContract blobId blob peer lib leads) h
      (self.directPeersRangeLoop lib blobId key l) fun _ _ => True := by
  have hq : Quiet self lib (blamelessContract blobId blob peer lib leads) := quiet_blameless
  induction l generalizing h with
  | nil => trivial
  | cons other rest ih =>
      refine (hq.resolvePayment_meets h other _ _).bind fun h₁ payment _ _ => ?_
      by_cases hpeer : other = peer
      · subst hpeer
        have hfirst : Meets (blamelessContract blobId blob other lib leads) h₁
            (fetch (.fetchRange other blobId.bytes 0 rangeChunk payment.1))
            fun _ reply => ∀ chunk, reply = some chunk → chunk = slice blob 0 rangeChunk :=
          meets_fetch (by rintro ⟨⟩) (by rintro ⟨⟩) (fun _ chunk hchunk => by cases hchunk)
            fun _ reply hreply chunk hchunk =>
              hreply.eq_truth (.range 0 rangeChunk payment.1) ⟨rfl, hchunk⟩
        refine hfirst.bind fun h₂ reply _ hreply => ?_
        rcases reply with - | chunk
        · exact ih
        obtain rfl := hreply chunk rfl
        have hlen := slice_length blob 0 rangeChunk
        refine Meets.ite (fun hshort => ?_) fun hfull => ?_
        · have hall : slice blob 0 rangeChunk = blob := by
            simpa [slice] using by omega
          exact finalizeL1Fetch_blameless hinj hid (.inr hall) _
        · refine (rangeChunks_of_first (fun h amount => hq.resolvePayment_meets h other _ amount)
            (fun h offset proof hpos _ => fetch_chunk_right hpos proof) payment.2 hfull).bind
              fun h₃ assembled _ hdone => ?_
          rcases hdone with ⟨-, err, rfl⟩ | ⟨-, rfl⟩
          · exact finalizeL1Fetch_blameless hinj hid (.inr rfl) err
          · trivial
      · refine (hq.fetch_bound (P := 0) _).meets.bind fun h₂ reply _ _ => ?_
        rcases reply with - | chunk
        · exact ih
        refine Meets.ite (fun hshort => ?_) fun hfull => ?_
        · exact finalizeL1Fetch_blameless hinj hid (.inl hpeer) _
        · refine (hq.rangeChunks_bound (P := 0) other chunk payment.2 (by decide)
            (by decide)).meets.bind fun h₃ assembled _ _ => ?_
          rcases assembled with - | ⟨data, err⟩
          · trivial
          · exact finalizeL1Fetch_blameless hinj hid (.inl hpeer) err

omit hinj hid in
/-- In windows that are served, every chunk is right up to the end of the blob. -/
theorem chunkReply_of_served (hleads : leads) {other : PeerId} {offset : ℕ} {proof : Bytes32}
    {timeout : Option ℕ} {reply : Option (ZingResult Bytes)}
    (hreply : ServedRely blobId blob peer leads
      (.await (.fetchRange other blobId.bytes offset chunkSize proof) timeout) reply) :
    ChunkReply blob (offset, P2pCommand.fetchRange other blobId.bytes offset chunkSize proof)
      ((reply.bind Except.toOption).bind fun data =>
        if data = [] then none else some (offset, data)) := by
  obtain ⟨hanswered, hothers⟩ := hreply.windows hleads
  rcases hdata : reply.bind Except.toOption with - | data
  · refine .inl ⟨rfl, fun hpos => ?_⟩
    by_contra hlt
    exact hanswered other offset proof hpos (by omega) ⟨rfl, hdata⟩
  · have hright : offset ≤ blob.length → data = slice blob offset chunkSize := by
      intro hle
      by_cases hpeer : other = peer
      · subst hpeer
        exact hreply.eq_truth (.range offset chunkSize proof) ⟨rfl, hdata⟩
      · exact hothers other hpeer offset proof data hle ⟨rfl, hdata⟩
    have hslice := @slice_eq_nil_iff blob offset chunkSize (by decide)
    rw [Option.bind_some]
    by_cases hempty : data = []
    · -- empty data counts as none, and is right at the end of the blob only
      rw [if_pos hempty]
      refine .inl ⟨rfl, fun _ => ?_⟩
      by_contra hlt
      exact hlt (hslice.mp ((hright (by omega)).symm.trans hempty))
    · rw [if_neg hempty]
      by_cases hbeyond : blob.length < offset
      · exact .inr (.inr ⟨data, rfl, hbeyond⟩)
      · obtain rfl := hright (Nat.not_lt.mp hbeyond)
        exact .inr (.inl ⟨rfl, by rw [hslice] at hempty; omega⟩)

/-- Parallel ranges. -/
theorem tryDirectPeersRangeParallel_blameless :
    Meets (blamelessContract blobId blob peer lib leads) h
      (self.tryDirectPeersRangeParallel lib blobId key) fun _ _ => True := by
  have hq : Quiet self lib (blamelessContract blobId blob peer lib leads) := quiet_blameless
  refine hq.tryDirectPeersRangeParallel_meets (fun _ => trivial) fun h lead others err => ?_
  by_cases hlead : lead = peer
  · subst hlead
    by_cases hleads : leads
    · have hstart : ([] : Bytes) = blob.take (0 * (lead :: others).length * chunkSize) := by simp
      rw [hstart]
      refine rangeWindows_exact trivial (fun h other _ => hq.resolvePayment_meets h other _ _)
        (by rintro _ _ ⟨⟩) (by rintro _ _ _ ⟨⟩) ?_ ?_ (fun _ => trivial)
        (fun h err => finalizeL1Fetch_blameless hinj hid (.inr rfl) err) windowFuel 0 err
      · rintro h other offset proof (_ | _) ⟨hpos, hlt⟩ hsent
        · exact absurd ⟨rfl, rfl⟩ ((hsent.windows hleads).1 other offset proof hpos hlt)
        · rfl
      · exact fun h other offset proof reply hreply => chunkReply_of_served hleads hreply
    · refine rangeWindows_headless (fun h other _ => hq.resolvePayment_meets h other _ _)
        (by rintro _ _ ⟨⟩) (by rintro _ _ _ ⟨⟩) ?_ (fun _ => trivial) (windowFuel - 1) err
      intro h proof reply hreply
      by_contra hsome
      obtain ⟨data, hdata⟩ := Option.ne_none_iff_exists'.mp hsome
      exact hreply.follows hleads ⟨proof, data, rfl, hdata⟩
  · exact (hq.rangeWindows_bound (P := 0)
      (fun h data err => finalizeL1Fetch_blameless hinj hid (.inl hlead) err) trivial others
      0 [] err (by decide) (by simp) (Nat.zero_le _)).meets

/-- **A resolve does not blame a peer that returns no wrong bytes and is served.** -/
theorem resolve_blameless [DecidableEq PeerId] :
    Meets (blamelessContract blobId blob peer lib leads) [] (self.resolve lib blobId)
      fun _ _ => True := by
  have hloop : ∀ {h : Trace PeerId} {loop : List PeerId → Action PeerId L1Result},
      (∀ h l, Meets (blamelessContract blobId blob peer lib leads) h (loop l) fun _ _ => True) →
        Meets (blamelessContract blobId blob peer lib leads) h (connectedPeers >>= loop)
          fun _ _ => True := by
    intro h loop hloop
    exact ((@quiet_blameless PeerId self lib blobId blob peer leads).connectedPeers_bound
      (P := 0)).meets.bind fun h₁ l _ _ => hloop h₁ l
  have hnext : ∀ {h : Trace PeerId} {first next : Action PeerId L1Result},
      Meets (blamelessContract blobId blob peer lib leads) h first (fun _ _ => True) →
      (∀ h, Meets (blamelessContract blobId blob peer lib leads) h next fun _ _ => True) →
        Meets (blamelessContract blobId blob peer lib leads) h (orElse first next)
          fun _ _ => True :=
    fun hfirst hnext => meets_orElse (hfirst.mono fun h' _ _ _ =>
      ⟨fun _ => hnext h', fun _ => trivial⟩)
  have hwalrus : ∀ h, Meets (blamelessContract blobId blob peer lib leads) h
      (resolveFromWalrus blobId (lib.blobIdToString blobId)) fun _ _ => True := by
    exact fun h => meets_resolveFromWalrus (by rintro ⟨⟩)
      (fun data _ => ⟨by rintro ⟨⟩, fun _ => trivial⟩) (fun _ => by rintro ⟨⟩) fun _ _ => trivial
  refine meets_resolve (by rintro ⟨⟩) (fun _ _ => trivial) (fun _ _ => trivial) fun _ => ?_
  have hl1 : ∀ h, Meets (blamelessContract blobId blob peer lib leads) h
      (self.resolveFromL1 lib blobId (lib.blobIdToString blobId)) fun _ _ => True :=
    fun h => hnext (tryDirectPeersRangeParallel_blameless hinj hid) fun _ =>
      hnext (hloop fun _ l => directPeersRangeLoop_blameless hinj hid l) fun _ =>
        hnext (hloop fun _ l => directPeersLoop_blameless hinj hid l) fun _ =>
          tryProviders_blameless hinj hid
  exact meets_resolveUncached (hl1 _) (fun _ _ _ => trivial) (fun h' _ => hwalrus h')
    fun _ => hwalrus _

end Strategies

/-- **Blame is just when the peer was served.** In every run of resolves, interleaved in
any way and answered in any way, a peer that is blamed for corruption had returned wrong
bytes of the blob, provided that its requests had been served up to then. -/
theorem blame_just [DecidableEq PeerId] {self : Resolver PeerId} {lib : Externals PeerId}
    (hinj : Function.Injective lib.peerIdToString) {σ : Type} {init : σ → Prop}
    {perform : σ → (e : Effect PeerId) → e.Ans → σ → Prop}
    {pool : Pool (@Effect.Ans PeerId) σ BlobId (ZingResult ResolveResult)}
    (hreach : Pool.Reachable init perform (self.resolve lib) pool)
    {task : Task (@Effect.Ans PeerId) BlobId (ZingResult ResolveResult)}
    (htask : task ∈ pool.tasks) {blob : Bytes} (hid : lib.computeBlobId blob = .ok task.tag)
    {peer : PeerId} {pre post : Trace PeerId}
    (hblame : task.history = pre ++ ⟨.recordCorruption (lib.peerIdToString peer), ()⟩ :: post)
    (hserved : Served task.tag blob peer pre) :
    ∃ ev ∈ pre, WrongAnswer task.tag blob peer ev.1 ev.2 := by
  by_contra hnone
  have hright : ∀ ev ∈ pre, ¬ WrongAnswer task.tag blob peer ev.1 ev.2 :=
    fun ev hev hwrong => hnone ⟨ev, hev, hwrong⟩
  obtain ⟨t, o, hrun, -⟩ := @exists_run _ _ _ (fun _ _ _ => True)
    (fun _ e => ⟨e.nonempty_ans.some, trivial⟩) [] task.rest
  have hwhole := hreach.runs htask hrun
  rw [hblame, List.append_assoc] at hwhole
  have hrely : ∀ ev ∈ pre, ServedRely task.tag blob peer
      (∃ ev ∈ pre, Leads task.tag peer ev.1 ev.2) ev.1 ev.2 := fun ev hev =>
    { right := hright ev hev
      sequential := hserved.sequential ev hev
      windows := fun hleads => hserved.windows hleads ev hev
      follows := fun hnot hleads => hnot ⟨ev, hev, hleads⟩ }
  exact Meets.effect (resolve_blameless hinj hid) hwhole rfl (respects_of_forall hrely []) rfl

/-! ### A peer that is served -/

/-- A blob of one full chunk and one byte more. -/
def twoChunks : Bytes := List.replicate (chunkSize + 1) 0

/-- Its blob id. -/
def twoChunksId : BlobId := ⟨List.Vector.replicate 32 1⟩

/-- A range of it is zeros, up to its end. -/
theorem slice_twoChunks (offset length : ℕ) :
    slice twoChunks offset length = List.replicate (min length (chunkSize + 1 - offset)) 0 := by
  rw [slice, twoChunks, List.drop_replicate, List.take_replicate]

theorem sampleBlobId_twoChunks : sampleBlobId twoChunks = twoChunksId := by
  rw [sampleBlobId, twoChunks, List.length_replicate]
  rfl

/-- Two connected peers, the first of which answers every fetch with the byte 2, the second as it
is asked; the rest is as in `garbageEnv`. -/
def wrongChunkEnv (h : Trace ℕ) : (e : Effect ℕ) → e.Ans
  | .await .getConnectedPeers _ => some [0, 1]
  | .await (.fetchRange peer _ offset length _) _ =>
      let rest := List.replicate (min length (chunkSize + 1 - offset)) 0
      some (.ok (if peer = 0 then [2] else rest))
  | e => garbageEnv h e

/-- Every request is answered. -/
theorem wrongChunkEnv_answers (h : Trace ℕ) (e : Effect ℕ) (peer offset length : ℕ)
    (proof : Bytes32) :
    ¬ Unanswered (.fetchRange peer twoChunksId.bytes offset length proof) e
      (wrongChunkEnv h e) := by
  cases e with
  | send cmd => exact fun hlost => Bool.noConfusion hlost.2
  | await cmd timeout =>
      rintro ⟨rfl, hnone⟩
      cases hnone
  | _ => exact id

/-- Only the first peer gives wrong answers. -/
theorem wrongChunkEnv_right (h : Trace ℕ) (e : Effect ℕ) {peer : ℕ} (hpeer : peer ≠ 0)
    (offset length : ℕ) (proof : Bytes32) (data : Bytes)
    (hbrings : Brings (.fetchRange peer twoChunksId.bytes offset length proof) data e
      (wrongChunkEnv h e)) : data = slice twoChunks offset length := by
  cases e with
  | await cmd timeout =>
      obtain ⟨rfl, hdata⟩ := hbrings
      rw [slice_twoChunks, ← Option.some.inj hdata, if_neg hpeer]
  | _ => exact hbrings.elim

/-- The first peer is served. -/
theorem wrongChunkEnv_sequential (h : Trace ℕ) (e : Effect ℕ) :
    SequentialServed twoChunksId twoChunks 0 e (wrongChunkEnv h e) :=
  fun offset proof _ _ => wrongChunkEnv_answers h e 0 offset _ proof

/-- So are the windows. -/
theorem wrongChunkEnv_windows (h : Trace ℕ) (e : Effect ℕ) :
    WindowsServed twoChunksId twoChunks 0 e (wrongChunkEnv h e) :=
  ⟨fun other offset proof _ _ => wrongChunkEnv_answers h e other offset _ proof,
    fun _ hother offset proof data _ => wrongChunkEnv_right h e hother offset _ proof data⟩

/-- The resolve among the two peers, with its history. -/
def wrongChunkRun : Trace ℕ × Option (ZingResult ResolveResult) :=
  exec wrongChunkEnv [] (onlineResolver.resolve sampleExternals twoChunksId)

/-- The first peer leads the windows and is blamed for a wrong first chunk. -/
theorem blame_just_wrongChunk :
    ∃ ev ∈ wrongChunkRun.1, WrongAnswer twoChunksId twoChunks 0 ev.1 ev.2 := by
  have hend : wrongChunkRun.2 = some (.ok ⟨[1], .l3Walrus, true, none⟩) := rfl
  have hrun : (onlineResolver.resolve sampleExternals twoChunksId).Runs wrongChunkRun.1
      (some (.ok ⟨[1], .l3Walrus, true, none⟩)) :=
    hend ▸ runs_exec wrongChunkEnv [] _
  have hreach : Pool.Reachable (fun _ : Unit => True) (fun _ _ _ _ => True)
      (onlineResolver.resolve sampleExternals) ⟨(), [⟨twoChunksId, wrongChunkRun.1, _⟩]⟩ :=
    Pool.Reachable.of_runs trivial (.of_allows (fun _ _ => trivial) _) hrun
  have hmem : ⟨.recordCorruption (sampleExternals.peerIdToString 0), ()⟩ ∈ wrongChunkRun.1 := by
    have hfst : Effect.recordCorruption (sampleExternals.peerIdToString 0)
        ∈ wrongChunkRun.1.map Sigma.fst := by
      decide +kernel
    obtain ⟨⟨e, r⟩, hev, rfl⟩ := List.mem_map.mp hfst
    exact hev
  obtain ⟨pre, post, hsplit⟩ := List.append_of_mem hmem
  have hserved : Served twoChunksId twoChunks 0 pre := by
    have hall : ∀ ev ∈ pre, ev ∈ wrongChunkRun.1 := fun ev hev =>
      hsplit ▸ List.mem_append_left _ hev
    exact ⟨fun ev hev => forall_exec wrongChunkEnv_sequential [] _ ev (hall ev hev),
      fun _ ev hev => forall_exec wrongChunkEnv_windows [] _ ev (hall ev hev)⟩
  obtain ⟨ev, hev, hwrong⟩ := blame_just sampleExternals_peerIdToString_injective hreach
    List.mem_cons_self (congrArg Except.ok sampleBlobId_twoChunks) hsplit hserved
  exact ⟨ev, hsplit ▸ List.mem_append_left _ hev, hwrong⟩

/-! ### A peer that is not served -/

section TimeOut

/-- The answers of one connected peer that seeds the blob and times out on every request
but the first of each range strategy. -/
def timeoutRely (blob : Bytes) : (e : Effect ℕ) → e.Ans → Prop
  | .storeGet _, r => r = .ok none
  | .send _, sent => sent = true
  | .await .getConnectedPeers _, reply => reply = some [0]
  | .await (.fetchRange _ _ offset length _) _, reply =>
      reply = if offset = 0 then some (.ok (slice blob 0 length)) else none
  | .await (.fetchBlob ..) _, reply => reply = none
  | .onchainPay .., o => OnchainOutcome.DigestFits sampleExternals o
  | _, _ => True

/-- The event of blaming the peer. -/
def blamed : Event (@Effect.Ans ℕ) := ⟨.recordCorruption (sampleExternals.peerIdToString 0), ()⟩

variable {blob : Bytes} {blobId : BlobId} {key : String} {h : Trace ℕ}

/-- There is always such an answer. -/
theorem exists_timeoutRely (e : Effect ℕ) : ∃ r, timeoutRely blob e r := by
  cases e with
  | storeGet => exact ⟨_, rfl⟩
  | send => exact ⟨_, rfl⟩
  | await cmd timeout =>
      cases cmd with
      | getConnectedPeers | fetchBlob | fetchRange => exact ⟨_, rfl⟩
      | _ => exact ⟨none, trivial⟩
  | onchainPay =>
      refine ⟨⟨.ok (), ⟨.ok (), [], .ok []⟩, .ok (), .ok (), .ok none⟩, ?_⟩
      rintro _ _ ⟨⟩
  | _ => exact ⟨(Effect.nonempty_ans _).some, trivial⟩

/-- The digests of these answers decode. -/
theorem timeoutRely_digestRely {e : Effect ℕ} {r : e.Ans} (hr : timeoutRely blob e r) :
    digestRely sampleExternals e r := by
  cases e with
  | onchainPay => exact hr
  | _ => trivial

/-- The peer's bytes are right where it answers. -/
theorem timeoutRely_right {e : Effect ℕ} {r : e.Ans} (hr : timeoutRely blob e r) :
    ¬ WrongAnswer blobId blob 0 e r := by
  rintro ⟨cmd, truth, data, hasks, hbrings, hne⟩
  cases e with
  | await cmd' timeout =>
      obtain ⟨rfl, hdata⟩ := hbrings
      cases hasks with
      | whole proof =>
          obtain rfl : r = none := hr
          cases hdata
      | range offset length proof =>
          obtain rfl : r = if offset = 0 then some (.ok (slice blob 0 length)) else none := hr
          split at hdata
          · rename_i hzero
            subst hzero
            exact hne (Option.some.inj hdata).symm
          · cases hdata
  | _ => exact hbrings

/-- Every strategy can be run with this peer. -/
theorem tame_timeout : Tame onlineResolver sampleExternals (.under (timeoutRely blob)) blobId key
    FromPeer :=
  (tame_live (by rintro _ _ ⟨⟩) _ key).weaken (fun _ _ _ hr => timeoutRely_digestRely hr)
    (fun _ _ _ => trivial) id

/-- What a range request brings. -/
theorem awaitNonempty_timeout {α : Type} (hblob : 0 < blob.length) (timeout : ℕ) (x : α)
    {peer offset length : ℕ} (hlength : 0 < length) (id proof : Bytes32) :
    Meets (.under (timeoutRely blob)) h
      (awaitNonempty timeout (x, P2pCommand.fetchRange peer id offset length proof))
      fun _ r => r = if offset = 0 then some (x, slice blob 0 length) else none := by
  refine meets_awaitNonempty trivial fun reply hreply => ?_
  obtain rfl : reply = if offset = 0 then some (.ok (slice blob 0 length)) else none := hreply
  split
  · have hne : slice blob 0 length ≠ [] := by
      rw [Ne, slice_eq_nil_iff hlength]
      omega
    exact if_neg hne
  · rfl

/-- One turn of the window loop: the first window receives the first chunk, and the others
nothing. -/
theorem rangeWindows_turn (hblob : 0 < blob.length) {fuel window : ℕ} {data : Bytes}
    {err : Option String} {Q : Trace ℕ → L1Result → Prop}
    (hafter : ∀ h' err', Meets (.under (timeoutRely blob)) h'
      (afterWindow onlineResolver sampleExternals blobId key 0 [] fuel window data err'
        (if window = 0 then [(0, slice blob 0 chunkSize)] else [])) Q) :
    Meets (.under (timeoutRely blob)) h
      (onlineResolver.rangeWindows sampleExternals blobId key 0 [] (fuel + 1) window data err)
      Q := by
  have ht : Tame onlineResolver sampleExternals (.under (timeoutRely blob)) blobId key FromPeer :=
    tame_timeout
  refine meets_rangeWindows_succ (fun _ => True)
    (fun x r => r = if x.1 = 0 then some (x.1, slice blob 0 chunkSize) else none)
    (fun h' peer _ => ht.resolvePayment_meets h' peer _ _) (fun _ _ => trivial)
    (fun _ _ _ _ _ _ hsent => hsent)
    (fun h' peer offset proof => awaitNonempty_timeout hblob 30 offset (by decide) _ proof)
    fun h' proofs pending responses err' hproofs hsub hmust hresponses => ?_
  obtain ⟨proof, rfl⟩ := List.length_eq_one_iff.mp hproofs
  obtain rfl := (List.sublist_singleton.mp hsub).resolve_left fun hnil =>
    List.not_mem_nil (hnil ▸ hmust _ List.mem_cons_self trivial)
  obtain ⟨r, rest, hr, hrest, rfl⟩ := List.forall₂_cons_left_iff.mp hresponses
  obtain rfl := List.forall₂_nil_left_iff.mp hrest
  have hchunks : [r].reduceOption = if window = 0 then [(0, slice blob 0 chunkSize)] else [] := by
    rw [hr]
    by_cases hzero : window = 0
    · subst hzero
      rfl
    · have hpos : ¬ window * 1 * chunkSize = 0 := by
        simp [hzero, chunkSize]
      rw [if_neg hzero, List.length_singleton, if_neg hpos]
      rfl
  rw [hchunks]
  exact hafter h' err'

/-- After its first chunk the peer times out, and is blamed for the rest. -/
theorem rangeWindows_timeout (hlong : chunkSize ≤ blob.length)
    (hbad : sampleExternals.computeBlobId (slice blob 0 chunkSize) ≠ .ok blobId)
    (fuel : ℕ) (err : Option String) :
    Meets (.under (timeoutRely blob)) h
      (onlineResolver.rangeWindows sampleExternals blobId key 0 [] (fuel + 2) 0 [] err)
      fun h' _ => blamed ∈ h' := by
  have hblob : 0 < blob.length := lt_of_lt_of_le (by decide) hlong
  have hlen : (slice blob 0 chunkSize).length = chunkSize := by
    rw [slice_length]
    omega
  refine rangeWindows_turn hblob fun h₁ err₁ => ?_
  have hassembly : assemble ([] : Bytes).length [] false
      ([(0, slice blob 0 chunkSize)].insertionSort fun a b => a.1 ≤ b.1)
        = ⟨slice blob 0 chunkSize, false, false⟩ := by
    simp [assemble, hlen]
  have hfits : ¬ maxTotalSize < (slice blob 0 chunkSize).length := by
    rw [hlen]
    decide
  rw [if_pos rfl, afterWindow]
  simp only [List.isEmpty_cons, Bool.false_eq_true, if_false, hassembly, if_neg hfits]
  refine rangeWindows_turn hblob fun h₂ err₂ => ?_
  have hne : ¬ (slice blob 0 chunkSize).isEmpty := by
    rw [List.isEmpty_iff, ← List.length_eq_zero_iff, hlen]
    decide
  obtain ⟨e, he⟩ := verifyBlobById_error hbad
  rw [if_neg (by simp), afterWindow, List.isEmpty_nil, if_pos rfl, finishWindows, if_neg hne,
    finalizeL1Fetch, he]
  exact ⟨trivial, fun _ _ => List.mem_append_right _ List.mem_cons_self⟩

/-- The parallel strategy blames the peer. -/
theorem tryDirectPeersRangeParallel_timeout (hlong : chunkSize ≤ blob.length)
    (hbad : sampleExternals.computeBlobId (slice blob 0 chunkSize) ≠ .ok blobId) :
    Meets (.under (timeoutRely blob)) h
      (onlineResolver.tryDirectPeersRangeParallel sampleExternals blobId key)
      fun h' _ => blamed ∈ h' := by
  have ht : Tame onlineResolver sampleExternals (.under (timeoutRely blob)) blobId key FromPeer :=
    tame_timeout
  have hconnected : Meets (.under (timeoutRely blob)) h connectedPeers fun _ l => l = [0] :=
    meets_connectedPeers (fun _ hsent => hsent) fun _ hreply => hreply
  refine hconnected.bind fun h₁ connected _ hl => ?_
  subst hl
  show Meets _ h₁ (if ([0] : List ℕ).isEmpty then _ else _) _
  rw [List.isEmpty_cons, if_neg Bool.false_ne_true]
  refine (ht.payAll_meets ([0].take maxParallel) _ _).bind fun h₂ payments _ hpayments => ?_
  obtain ⟨payment, rfl⟩ := List.length_eq_one_iff.mp hpayments
  refine (meets_sendAll_of_sent (fun _ _ => trivial) (fun _ _ _ hsent => hsent) _).bind
    fun h₃ probes _ hprobes => ?_
  subst hprobes
  -- the probe is answered, and the peer leads the windows
  refine (meets_mapM_of_forall (P := fun x r => r = some (x.1, slice blob 0 8))
    fun x hx h' => ?_).bind fun h₄ answers _ hanswers => ?_
  · obtain rfl := List.mem_singleton.mp hx
    exact awaitNonempty_timeout (lt_of_lt_of_le (by decide) hlong) 5 0 (by decide) _ payment.1
  obtain ⟨r, rest, hr, hrest, rfl⟩ := List.forall₂_cons_left_iff.mp hanswers
  obtain rfl := List.forall₂_nil_left_iff.mp hrest
  obtain rfl := hr
  exact rangeWindows_timeout hlong hbad (windowFuel - 2) _

/-- The resolve blames the peer. -/
theorem resolve_timeout (hlong : chunkSize ≤ blob.length)
    (hbad : sampleExternals.computeBlobId (slice blob 0 chunkSize) ≠ .ok blobId) :
    Meets (.under (timeoutRely blob)) [] (onlineResolver.resolve sampleExternals blobId)
      fun t _ => blamed ∈ t := by
  have hlive : Meets (.under (timeoutRely blob)) [] (onlineResolver.resolve sampleExternals blobId)
      SucceedsLocally :=
    (resolve_live (by rintro _ _ ⟨⟩) blobId 0).meets.weaken
      (fun _ _ _ hr => timeoutRely_digestRely hr) (fun _ _ _ => trivial) id
  have ht : Tame onlineResolver sampleExternals (.under (timeoutRely blob)) blobId
    (sampleExternals.blobIdToString blobId) FromPeer := tame_timeout
  refine ⟨trivial, fun cached hcached => ?_⟩
  obtain rfl : cached = .ok none := hcached
  -- the parallel strategy comes first, and its blame stays
  have hl1 : ∀ h, Meets (.under (timeoutRely blob)) h (onlineResolver.resolveFromL1
      sampleExternals blobId (sampleExternals.blobIdToString blobId)) fun h' _ => blamed ∈ h' :=
    fun h => Meets.mem_of_bind (ht.resolveFromL1_bound (P := 0)).meets
      (tryDirectPeersRangeParallel_timeout hlong hbad)
  exact Meets.mem_of_bind (p := onlineResolver.resolveFromL1 sampleExternals blobId
    (sampleExternals.blobIdToString blobId)) (hlive.2 (.ok none) rfl) (hl1 _)

/-- **A seeder that times out is blamed for corruption**: it answers the first request of
each range strategy with the right bytes and no other, and loses reputation for
corruption. -/
theorem not_blame_just :
    ∃ t r, (onlineResolver.resolve sampleExternals (sampleBlobId twoChunks)).Runs t (some r) ∧
      ⟨.recordCorruption (sampleExternals.peerIdToString 0), ()⟩ ∈ t ∧
      ∀ ev ∈ t, ¬ WrongAnswer (sampleBlobId twoChunks) twoChunks 0 ev.1 ev.2 := by
  have hlength : twoChunks.length = chunkSize + 1 := List.length_replicate
  have hbad : sampleBlobId (slice twoChunks 0 chunkSize) ≠ sampleBlobId twoChunks := by
    have hchunk : sampleBlobId (slice twoChunks 0 chunkSize) = ⟨List.Vector.replicate 32 0⟩ := by
      rw [sampleBlobId, slice_length, hlength]
      rfl
    rw [hchunk, sampleBlobId_twoChunks]
    decide
  obtain ⟨t, r, hrun, hrely, hmem⟩ :=
    (resolve_timeout (by rw [hlength]; decide) fun hid => hbad (Except.ok.inj hid)).exists_ends
      exists_timeoutRely
  exact ⟨t, r, hrun, hmem, fun ev hev => timeoutRely_right (hrely ev hev)⟩

end TimeOut

end ZingCdn
