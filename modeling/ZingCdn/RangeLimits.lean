import ZingCdn.RangeReassembly

/-!
# The Limits of the Range Strategies

Both range strategies stop at 512 MiB. The window loop measures the data after it has
appended a window, and takes a blob of exactly that size; it learns that the blob has ended
from one more window, which is empty. The chunk loop counts before it asks: after 2048 full
chunks it gives up without the one more request that would be empty. So among honest peers
the strategies part at exactly one size.

## Main results

* `tryDirectPeersRange_honest`, `tryDirectPeersRangeParallel_honest`: what each strategy ends
  with, for a blob of any size.
* `strategies_agree_iff`: they agree on every size but 512 MiB.
* `half_gib_differs`: at 512 MiB one returns the blob and the other nothing.
-/

open Program Program.Prog

namespace ZingCdn

open Resolver

variable {PeerId : Type}

/-! ### Honest peers -/

/-- The answers among honest peers: the P2P node knows the connected peers, and whoever is
asked serves every range. -/
def HonestAnswers (lib : Externals PeerId) (store : PeerId → StoreRead) (blob : Bytes)
    (connected : List PeerId) (e : Effect PeerId) (r : e.Ans) : Prop :=
  RangesServed lib store blob e r ∧
    match e, r with
    | .await .getConnectedPeers _, reply => reply = some connected
    | _, _ => True

/-- A strategy returned the blob. -/
def Returned (blob : Bytes) (o : Option L1Result) : Prop :=
  ∃ res : ResolveResult, o = some (some (.ok res)) ∧ res.data = blob

/-- No result is no blob. -/
theorem not_returned_none (blob : Bytes) : ¬ Returned blob (some none) := by
  rintro ⟨res, hres, -⟩
  cases hres

section Honest

variable {self : Resolver PeerId} {lib : Externals PeerId} {blobId : BlobId} {blob : Bytes}
  {store : PeerId → StoreRead} {connected : List PeerId} {key : String} {h : Trace PeerId}

/-- Honest peers can always answer. -/
theorem exists_honestAnswer (lib : Externals PeerId) (store : PeerId → StoreRead) (blob : Bytes)
    (connected : List PeerId) (e : Effect PeerId) :
    ∃ r, HonestAnswers lib store blob connected e r := by
  cases e with
  | send => exact ⟨true, rfl, trivial⟩
  | await cmd timeout =>
      cases cmd with
      | getConnectedPeers => exact ⟨some connected, trivial, rfl⟩
      | fetchRange peer id offset length proof =>
          have hsource : (P2pCommand.fetchRange peer id offset length proof).source? = some peer :=
            rfl
          obtain ⟨reply, hreply⟩ := Swarm.exists_reply hsource
            (handlerData lib (store peer) 1 (.fetchRange peer id offset length proof))
          exact ⟨reply, ⟨1, fun _ => .inr rfl, hreply⟩, trivial⟩
      | _ => exact ⟨none, trivial, trivial⟩
  | onchainPay =>
      refine ⟨⟨.ok (), ⟨.ok (), [], .ok []⟩, .ok (), .ok (), .ok none⟩, ?_, trivial⟩
      rintro _ _ ⟨⟩
  | _ => exact ⟨(Effect.nonempty_ans _).some, trivial, trivial⟩

/-- What holds when the ranges are served holds among honest peers. -/
theorem meets_honest {α : Type} {p : Action PeerId α} {Q : Trace PeerId → α → Prop}
    (hp : Meets (.under (RangesServed lib store blob)) h p Q) :
    Meets (.under (HonestAnswers lib store blob connected)) h p Q :=
  hp.weaken (fun _ _ _ hr => hr.1) (fun _ _ => id) id

/-- The connected peers are those of the swarm. -/
theorem connectedPeers_honest :
    Meets (.under (HonestAnswers lib store blob connected)) h (@connectedPeers PeerId)
      fun _ l => l = connected :=
  meets_connectedPeers (fun _ hsent => hsent.1) fun _ hreply => hreply.2

/-- A verified blob is returned. -/
theorem finalizeL1Fetch_returned (hid : lib.computeBlobId blob = .ok blobId) {peer : PeerId}
    (err : Option String) :
    Meets (.under (HonestAnswers lib store blob connected)) h
      (finalizeL1Fetch lib blobId key peer blob err) fun _ r => Returned blob (some r) :=
  (finalizeL1Fetch_verified hid key peer err).mono
    fun _ _ _ hr => ⟨_, congrArg some hr, rfl⟩

/-! ### The sequential strategy -/

/-- **The sequential strategy** returns a blob of less than 2048 chunks, and nothing else. -/
theorem tryDirectPeersRange_honest (key : String) (hcoin : self.CoinTypeParses lib)
    (hid : lib.computeBlobId blob = .ok blobId) (hne : 0 < blob.length)
    (hconnected : connected ≠ [])
    (hholds : ∀ peer ∈ connected, store peer (lib.blobIdToString blobId) = .ok (some blob)) :
    Meets (.under (HonestAnswers lib store blob connected)) h
      (self.tryDirectPeersRange lib blobId key) fun _ r =>
        blob.length < maxChunks * rangeChunk ∧ Returned blob (some r) ∨
          maxChunks * rangeChunk ≤ blob.length ∧ r = none := by
  refine connectedPeers_honest.bind fun h₁ l _ hl => ?_
  subst hl
  obtain ⟨peer, rest, rfl⟩ := List.exists_cons_of_ne_nil hconnected
  rw [directPeersRangeLoop_cons]
  refine (meets_honest (fetchRanges_exact hcoin (hholds peer List.mem_cons_self) hne)).bind
    fun h₂ stop _ hstop => ?_
  rcases hstop with ⟨hshort, hdata⟩ | ⟨hlong, rfl⟩
  · cases stop with
    | nextPeer | tooManyChunks => cases hdata
    | finished data err =>
        obtain rfl := Option.some.inj hdata
        exact (finalizeL1Fetch_returned hid err).mono fun _ _ _ hr => .inl ⟨hshort, hr⟩
  · exact .inr ⟨hlong, rfl⟩

/-! ### The parallel strategy -/

/-- Every peer that is probed answers with data. -/
theorem map_fst_of_probed {probes : List (PeerId × P2pCommand PeerId)}
    {answers : List (Option (PeerId × Bytes))}
    (hanswers : List.Forall₂ (fun x r => ∃ data, r = some (x.1, data)) probes answers) :
    answers.reduceOption.map Prod.fst = probes.map Prod.fst := by
  induction hanswers with
  | nil => rfl
  | cons hr _ ih =>
      obtain ⟨data, rfl⟩ := hr
      rw [List.reduceOption_cons_of_some, List.map_cons, List.map_cons, ih]

/-- What follows the window loop, from where it stops. -/
theorem afterWindows_honest (hid : lib.computeBlobId blob = .ok blobId) (hne : 0 < blob.length)
    {lead : PeerId} {stop : WindowEnd} (hstop : stop.Exact blob) :
    Meets (.under (HonestAnswers lib store blob connected)) h
      (afterWindows lib blobId key lead stop) fun _ r =>
        blob.length ≤ maxTotalSize ∧ Returned blob (some r) ∨
          maxTotalSize < blob.length ∧ r = none := by
  rcases hstop with ⟨hsmall, hdata⟩ | ⟨hlarge, rfl⟩
  · have hreturned : ∀ err, Meets (.under (HonestAnswers lib store blob connected)) h
        (finalizeL1Fetch lib blobId key lead blob err) fun _ r =>
          blob.length ≤ maxTotalSize ∧ Returned blob (some r) ∨
            maxTotalSize < blob.length ∧ r = none := fun err =>
      (finalizeL1Fetch_returned hid err).mono fun _ _ _ hr => .inl ⟨hsmall, hr⟩
    cases stop with
    | tooLarge => cases hdata
    | left data err =>
        obtain rfl := Option.some.inj hdata
        have hdata : ¬ data.isEmpty = true := by
          rw [List.isEmpty_iff]
          exact List.ne_nil_of_length_pos hne
        rw [afterWindows, finishWindows, if_neg hdata]
        exact hreturned err
    | atEnd data err =>
        obtain rfl := Option.some.inj hdata
        exact hreturned err
  · exact .inr ⟨hlarge, rfl⟩

/-- Every probed peer works: the windows are over the first connected peers. -/
theorem windows_honest (hcoin : self.CoinTypeParses lib)
    (hid : lib.computeBlobId blob = .ok blobId) (hne : 0 < blob.length) {lead : PeerId}
    {others : List PeerId} (hfew : (lead :: others).length ≤ maxParallel)
    (hholds : ∀ peer ∈ lead :: others,
      store peer (lib.blobIdToString blobId) = .ok (some blob)) (err : Option String) :
    Meets (.under (HonestAnswers lib store blob connected)) h
      (self.rangeWindows lib blobId key lead others windowFuel 0 [] err) fun _ r =>
        blob.length ≤ maxTotalSize ∧ Returned blob (some r) ∨
          maxTotalSize < blob.length ∧ r = none := by
  have hfit : min blob.length (maxTotalSize + (lead :: others).length * chunkSize) + chunkSize
      ≤ u64Max := by
    simp only [maxParallel] at hfew
    simp only [u64Max, chunkSize, maxTotalSize]
    omega
  have hpos : 0 < (lead :: others).length := Nat.succ_pos _
  have hloop := windowLoop_exact (h := h) hcoin hpos hholds hfit err
    (show (blob.take (0 * (lead :: others).length * chunkSize)).length ≤ maxTotalSize by simp)
    (Nat.zero_le _) (show maxTotalSize + 1 < 0 + windowFuel by decide)
  rw [Nat.zero_mul, Nat.zero_mul, List.take_zero] at hloop
  rw [rangeWindows_eq]
  exact (meets_honest hloop).bind fun _ stop _ hstop => afterWindows_honest hid hne hstop

/-- **The parallel strategy** returns a blob of at most 512 MiB, and nothing else. -/
theorem tryDirectPeersRangeParallel_honest (key : String) (hcoin : self.CoinTypeParses lib)
    (hid : lib.computeBlobId blob = .ok blobId) (hne : 0 < blob.length)
    (hconnected : connected ≠ [])
    (hholds : ∀ peer ∈ connected, store peer (lib.blobIdToString blobId) = .ok (some blob)) :
    Meets (.under (HonestAnswers lib store blob connected)) h
      (self.tryDirectPeersRangeParallel lib blobId key) fun _ r =>
        blob.length ≤ maxTotalSize ∧ Returned blob (some r) ∨
          maxTotalSize < blob.length ∧ r = none := by
  have ht : Tame self lib (.under (HonestAnswers lib store blob connected)) blobId "" FromPeer :=
    (tame_rangesServed hcoin).weaken (fun _ _ _ hr => hr.1) (fun _ _ => id) id
  refine connectedPeers_honest.bind fun h₁ l _ hl => ?_
  subst hl
  refine Meets.ite (fun hempty => absurd (List.isEmpty_iff.mp hempty) hconnected) fun _ => ?_
  have hprobers : ∀ peer ∈ l.take maxParallel,
      store peer (lib.blobIdToString blobId) = .ok (some blob) :=
    fun peer hpeer => hholds peer (List.mem_of_mem_take hpeer)
  refine (ht.payAll_meets (l.take maxParallel) _ _).bind fun h₂ payments _ hpayments => ?_
  refine (meets_honest (meets_sendAll_of_sent (fun _ _ => trivial)
    (fun _ _ _ hsent => hsent) _)).bind fun h₃ probes _ hprobes => ?_
  have hpeers : probes.map Prod.fst = l.take maxParallel := by
    rw [hprobes]
    exact map_fst_probeRequests hpayments
  refine (meets_mapM_of_forall (P := fun x r => ∃ data, r = some (x.1, data))
    fun x hx h' => ?_).bind fun h₄ answers _ hanswers => ?_
  · -- eight bytes of a blob that is not empty
    have hpeer := hprobers x.1 (hpeers ▸ List.mem_map_of_mem hx)
    rw [hprobes] at hx
    obtain ⟨proof, hprobe⟩ := exists_of_mem_probeRequests hx
    rw [hprobe]
    refine (meets_honest (awaitNonempty_served 5 x.1 (by decide) hpeer
      fun _ => by decide)).mono fun _ r _ hr => ?_
    rw [rangeAt, if_pos hne] at hr
    exact ⟨_, hr⟩
  · have hworking : answers.reduceOption.map Prod.fst = l.take maxParallel :=
      (map_fst_of_probed hanswers).trans hpeers
    cases hleads : l.take maxParallel with
    | nil =>
        have hzero := List.take_eq_nil_iff.mp hleads
        exact absurd hzero (by simp [maxParallel, hconnected])
    | cons lead others =>
        have hfew : (lead :: others).length ≤ maxParallel := by
          rw [← hleads]
          exact List.length_take_le _ _
        rw [hleads] at hworking hprobers
        simp only [hworking]
        exact windows_honest hcoin hid hne hfew hprobers _

end Honest

/-! ### The strategies side by side -/

/-- **The strategies accept the same sizes but one.** Among honest peers, the sequential
strategy returns the blob in a run exactly when the parallel one does in any other, if and
only if the blob is not of 512 MiB. -/
theorem strategies_agree_iff {self : Resolver PeerId} {lib : Externals PeerId} {blobId : BlobId}
    {blob : Bytes} {store : PeerId → StoreRead} {connected : List PeerId} (key : String)
    (hcoin : self.CoinTypeParses lib) (hid : lib.computeBlobId blob = .ok blobId)
    (hne : 1 ≤ blob.length) (hconnected : connected ≠ [])
    (hholds : ∀ peer ∈ connected, store peer (lib.blobIdToString blobId) = .ok (some blob)) :
    (∀ t o t' o', (self.tryDirectPeersRange lib blobId key).Runs t o →
      (∀ ev ∈ t, HonestAnswers lib store blob connected ev.1 ev.2) →
      (self.tryDirectPeersRangeParallel lib blobId key).Runs t' o' →
      (∀ ev ∈ t', HonestAnswers lib store blob connected ev.1 ev.2) →
        (Returned blob o ↔ Returned blob o')) ↔
    blob.length ≠ 512 * 1024 * 1024 := by
  have hsequential := tryDirectPeersRange_honest (h := []) key hcoin hid hne hconnected hholds
  have hparallel := tryDirectPeersRangeParallel_honest (h := []) key hcoin hid hne hconnected
    hholds
  have hcaps : maxChunks * rangeChunk = 512 * 1024 * 1024 ∧ maxTotalSize = 512 * 1024 * 1024 :=
    ⟨rfl, rfl⟩
  constructor
  · intro hagree hsize
    obtain ⟨t, r, hrun, hhonest, hr⟩ :=
      hsequential.exists_ends (exists_honestAnswer lib store blob connected)
    obtain ⟨t', r', hrun', hhonest', hr'⟩ :=
      hparallel.exists_ends (exists_honestAnswer lib store blob connected)
    obtain ⟨-, rfl⟩ := hr.resolve_left fun hshort => absurd hshort.1 (by omega)
    obtain ⟨-, hreturned⟩ := hr'.resolve_right fun hlarge => absurd hlarge.1 (by omega)
    exact not_returned_none blob ((hagree t _ t' _ hrun hhonest hrun' hhonest').mpr hreturned)
  · intro hsize t o t' o' hrun hhonest hrun' hhonest'
    obtain ⟨r, rfl, hr⟩ := hsequential.ends hrun hhonest
    obtain ⟨r', rfl, hr'⟩ := hparallel.ends hrun' hhonest'
    rcases hr with ⟨hshort, hreturned⟩ | ⟨hlong, rfl⟩
    · have hreturned' := (hr'.resolve_right fun hlarge => absurd hlarge.1 (by omega)).2
      exact iff_of_true hreturned hreturned'
    · obtain ⟨-, rfl⟩ := hr'.resolve_left fun hsmall => absurd hsmall.1 (by omega)
      exact Iff.rfl

/-- The peer that holds a blob of three ranges answers honestly. -/
theorem seederEnv_honest (h : Trace ℕ) (e : Effect ℕ) :
    HonestAnswers sampleExternals (fun _ _ => .ok (some threeRanges)) threeRanges [0] e
      (seederEnv threeRanges 1 h e) := by
  refine ⟨seederEnv_answers (fun _ _ _ => .inr rfl) h e, ?_⟩
  cases e with
  | await cmd timeout => cases cmd <;> trivial
  | _ => trivial

/-- Both strategies return it. -/
theorem strategies_agree_iff_threeRanges :
    Returned threeRanges (exec (seederEnv threeRanges 1) [] (onlineResolver.tryDirectPeersRange
        sampleExternals (sampleBlobId threeRanges) "")).2 ∧
      Returned threeRanges (exec (seederEnv threeRanges 1) []
        (onlineResolver.tryDirectPeersRangeParallel sampleExternals (sampleBlobId threeRanges)
          "")).2 := by
  have hcoin : onlineResolver.CoinTypeParses sampleExternals := by rintro _ _ ⟨⟩
  have hid : sampleExternals.computeBlobId threeRanges = .ok (sampleBlobId threeRanges) := rfl
  have hne : 1 ≤ threeRanges.length := by rw [length_threeRanges]; decide
  have hsize : threeRanges.length ≠ 512 * 1024 * 1024 := by rw [length_threeRanges]; decide
  have hagree := (strategies_agree_iff "" hcoin hid hne (List.cons_ne_nil 0 [])
    fun _ _ => rfl).mpr hsize _ _ _ _ (runs_exec (seederEnv threeRanges 1) [] _)
      (forall_exec seederEnv_honest [] _) (runs_exec (seederEnv threeRanges 1) [] _)
      (forall_exec seederEnv_honest [] _)
  obtain ⟨r, hr, hend⟩ := (tryDirectPeersRange_honest "" hcoin hid hne (List.cons_ne_nil 0 [])
    fun _ _ => rfl).ends (runs_exec (seederEnv threeRanges 1) [] _)
      (forall_exec seederEnv_honest [] _)
  have hshort : threeRanges.length < maxChunks * rangeChunk := by rw [length_threeRanges]; decide
  have hreturned := hr ▸ (hend.resolve_right fun hlong => absurd hlong.1 (by omega)).2
  exact ⟨hreturned, hagree.mp hreturned⟩

/-! ### 512 MiB -/

/-- 512 MiB of zeros. -/
def halfGib : Bytes := List.replicate (512 * 1024 * 1024) 0

theorem length_halfGib : halfGib.length = 512 * 1024 * 1024 := List.length_replicate

/-- **At 512 MiB the strategies part**: the only connected peer holds the blob and serves every
range; the parallel strategy returns the blob, the sequential one nothing. -/
theorem half_gib_differs :
    ∃ t t' o', (onlineResolver.tryDirectPeersRange sampleExternals (sampleBlobId halfGib)
        "").Runs t (some none) ∧
      (∀ ev ∈ t, HonestAnswers sampleExternals (fun _ _ => .ok (some halfGib)) halfGib [0]
        ev.1 ev.2) ∧
      (onlineResolver.tryDirectPeersRangeParallel sampleExternals (sampleBlobId halfGib)
        "").Runs t' o' ∧
      (∀ ev ∈ t', HonestAnswers sampleExternals (fun _ _ => .ok (some halfGib)) halfGib [0]
        ev.1 ev.2) ∧
      Returned halfGib o' := by
  have hcoin : onlineResolver.CoinTypeParses sampleExternals := by rintro _ _ ⟨⟩
  have hid : sampleExternals.computeBlobId halfGib = .ok (sampleBlobId halfGib) := rfl
  have hsize := length_halfGib
  have hne : 0 < halfGib.length := by omega
  have hconnected : [0] ≠ ([] : List ℕ) := List.cons_ne_nil 0 []
  have htotal := exists_honestAnswer sampleExternals (fun _ _ => .ok (some halfGib)) halfGib [0]
  have hcaps : maxChunks * rangeChunk = 512 * 1024 * 1024 ∧ maxTotalSize = 512 * 1024 * 1024 :=
    ⟨rfl, rfl⟩
  obtain ⟨t, r, hrun, hhonest, hr⟩ := (tryDirectPeersRange_honest (h := []) "" hcoin hid hne
    hconnected fun _ _ => rfl).exists_ends htotal
  obtain ⟨t', r', hrun', hhonest', hr'⟩ := (tryDirectPeersRangeParallel_honest (h := []) ""
    hcoin hid hne hconnected fun _ _ => rfl).exists_ends htotal
  obtain ⟨-, rfl⟩ := hr.resolve_left fun hshort => absurd hshort.1 (by omega)
  obtain ⟨-, hreturned⟩ := hr'.resolve_right fun hlarge => absurd hlarge.1 (by omega)
  exact ⟨t, t', some r', hrun, hhonest, hrun', hhonest', hreturned⟩

end ZingCdn
