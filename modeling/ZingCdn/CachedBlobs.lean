import ZingCdn.EvictionAlone
import ZingCdn.HttpApi
import ZingCdn.Integrity
import ZingCdn.Library.RunAlone

/-!
# Reported Caching

A resolve that succeeds reports its blob as cached, and the HTTP API then announces the blob
to the DHT. Whether the blob is in the store at that moment is another matter: the blob may
have been there before; otherwise it was put, unless that failed, and the eviction that
follows each put may have taken it again.

The resolve runs alone over the database. All its strategies leave the database alone until
they have found the blob (`Searches`), so what happens to the database is one put and one
eviction, whose outcome has a closed form (`EvictionManager.Evicts`).

## Main results

* `resolveFromL1_searches`: a search over peers touches the store at its end only.
* `cached_iff_held`: when a blob that is reported as cached is in the store.
* `not_cached_held`: a blob that is evicted at once is reported as cached.
-/

open Program Program.Prog

namespace ZingCdn

variable {PeerId : Type}

/-! ### The database during a resolve -/

/-- The effects that use the store. -/
def Effect.usesStore : Effect PeerId → Bool
  | .storeGet _ | .storePut .. | .evictionRun => true
  | _ => false

/-- How the operations on the database fail during a resolve, which reads, puts and evicts at
most once. -/
structure CacheFaults where
  get : Option String
  put : Option String
  eviction : StoreCall → Option String

/-- How the database answers the effects of a resolve that runs alone; every other effect may
be answered in any way. -/
inductive CacheStep (manager : EvictionManager) (overflowChecks : Bool) (faults : CacheFaults) :
    BlobStore → (e : Effect PeerId) → e.Ans → BlobStore → Prop
  | get (db : BlobStore) (key : String) : faults.get = none →
      CacheStep manager overflowChecks faults db (.storeGet key) (.ok (db.get key)) db
  | getFails (db : BlobStore) (key e : String) : faults.get = some e →
      CacheStep manager overflowChecks faults db (.storeGet key) (.error e) db
  | put (db : BlobStore) (key : String) (data : Bytes) : faults.put = none →
      CacheStep manager overflowChecks faults db (.storePut key data) (.ok ()) (db.put key data)
  | putFails (db : BlobStore) (key : String) (data : Bytes) (e : String) : faults.put = some e →
      CacheStep manager overflowChecks faults db (.storePut key data) (.error e) db
  | evict (db db' : BlobStore) (r : ZingResult Unit) :
      db.runAlone faults.eviction (manager.run overflowChecks) = (db', some r) →
        CacheStep manager overflowChecks faults db .evictionRun r db'
  | other (db : BlobStore) (e : Effect PeerId) (r : e.Ans) : e.usesStore = false →
      CacheStep manager overflowChecks faults db e r db

/-- The blob of a key is held after a resolve of it has succeeded: it was there before, or it
was put and the eviction does not take it. -/
def Held (manager : EvictionManager) (faults : CacheFaults) (db : BlobStore) (key : String)
    (data : Bytes) : Prop :=
  (db.get key).isSome ∨
    (faults.put = none ∧ ¬ manager.Evicts faults.eviction (db.put key data) key)

open Resolver

/-! ### Searching -/

/-- The end of a fetch whose data is verified: cache it, evict, and credit the peer. -/
def keepFetched (lib : Externals PeerId) (key : String) (peer : PeerId) (data : Bytes)
    (paymentError : Option String) : Action PeerId L1Result := do
  let _ ← storePut key data
  let _ ← ask .evictionRun
  let _ ← ask (.recordSuccess (lib.peerIdToString peer))
  pure (some (.ok { data, resolution := .l1Peer, cached := true, paymentError }))

/-- Where a search ends: with nothing, in a panic, or with a blob to keep. -/
inductive Found (lib : Externals PeerId) (key : String) : Action PeerId L1Result → Prop
  | nothing : Found lib key (.ret none)
  | panic : Found lib key .panic
  | blob (peer : PeerId) (data : Bytes) (paymentError : Option String) :
      Found lib key (keepFetched lib key peer data paymentError)

/-- A search: it does not use the store until its end. -/
abbrev Searches (lib : Externals PeerId) (key : String) (p : Action PeerId L1Result) : Prop :=
  Until (fun e => e.usesStore = false) (Found lib key) p

variable {self : Resolver PeerId} {lib : Externals PeerId} {blobId : BlobId} {key : String}

variable (self lib) in
/-- What is quiet leaves the store alone. -/
theorem quiet_storeless : Quiet self lib (freeContract fun e => e.usesStore = false) where
  benign h e he _ _ := by cases e <;> first | rfl | cases he
  sends _ _ := rfl
  payments h e hpay := by cases e <;> first | rfl | cases hpay
  pays := fun _ _ _ _ _ _ _ _ _ _ _ => trivial

/-- Something that does not use the store, and then a search. -/
theorem Searches.of_bind {β : Type} {h : Trace PeerId} {p : Action PeerId β}
    {f : β → Action PeerId L1Result} {Q : Trace PeerId → β → Prop}
    (hp : Meets (freeContract fun e => e.usesStore = false) h p Q)
    (hf : ∀ b, Searches lib key (f b)) : Searches lib key (p >>= f) :=
  Until.of_meets_bind hp .panic hf

/-- A choice between two searches. -/
theorem Searches.ite {b : Prop} [Decidable b] {p q : Action PeerId L1Result}
    (hp : Searches lib key p) (hq : Searches lib key q) :
    Searches lib key (if b then p else q) :=
  Until.ite hp hq

/-- Giving up is the end of a search. -/
theorem searches_none : Searches lib key (pure none) := .here .nothing

/-- The end of a fetch is a find, or the end of a search without one. -/
theorem finalizeL1Fetch_searches (peer : PeerId) (data : Bytes) (err : Option String) :
    Searches lib key (finalizeL1Fetch lib blobId key peer data err) := by
  rw [finalizeL1Fetch]
  split
  · exact .call rfl fun _ => searches_none
  · exact .here (.blob peer data err)

/-- The loop over whole blobs searches. -/
theorem directPeersLoop_searches (l : List PeerId) :
    Searches lib key (self.directPeersLoop lib blobId key l) := by
  induction l with
  | nil => exact searches_none
  | cons peer rest ih =>
      refine .of_bind ((quiet_storeless self lib).resolvePayment_meets [] peer _ _)
        fun payment => ?_
      refine .of_bind ((quiet_storeless self lib).fetch_bound (P := 0) (h := []) _).meets
        fun reply => ?_
      cases reply with
      | some data => exact finalizeL1Fetch_searches peer data payment.2
      | none => exact ih

/-- The loop over the peers of the sequential ranges searches. -/
theorem directPeersRangeLoop_searches (l : List PeerId) :
    Searches lib key (self.directPeersRangeLoop lib blobId key l) := by
  have hq := quiet_storeless self lib
  induction l with
  | nil => exact searches_none
  | cons peer rest ih =>
      refine .of_bind (hq.resolvePayment_meets [] peer _ _) fun payment => ?_
      refine .of_bind (hq.fetch_bound (P := 0) (h := []) _).meets fun reply => ?_
      rcases reply with - | chunk
      · exact ih
      · refine Searches.ite ?_ ?_
        · exact finalizeL1Fetch_searches peer chunk payment.2
        · refine .of_bind (hq.rangeChunks_bound (P := 0) (h := []) peer chunk payment.2 (by decide)
            (by decide)).meets fun assembled => ?_
          rcases assembled with - | ⟨data, err⟩
          · exact searches_none
          · exact finalizeL1Fetch_searches peer data err

/-- The window loop searches. -/
theorem rangeWindows_searches (lead : PeerId) (others : List PeerId) (fuel window : ℕ)
    (data : Bytes) (err : Option String) :
    Searches lib key (self.rangeWindows lib blobId key lead others fuel window data err) := by
  have hq := quiet_storeless self lib
  induction fuel generalizing window data err with
  | zero => exact .here .panic
  | succ fuel ih =>
      rw [rangeWindows_succ]
      refine .of_bind (hq.payAll_meets (h := []) (lead :: others) _ _) fun payments => ?_
      refine .of_bind (hq.sendAll_bound (P := 0) (h := []) _).meets fun fetches => ?_
      refine .of_bind (hq.awaitAll_meets (h := []) 30 fetches) fun responses => ?_
      rcases afterWindow_cases self lib blobId key lead others fuel window data
          (err <|> firstError payments) responses.reduceOption with
        hafter | ⟨data', hafter⟩ | ⟨data', -, -, hafter⟩
      · rw [hafter]
        exact searches_none
      · rw [hafter]
        exact finalizeL1Fetch_searches lead data' _
      · rw [hafter]
        exact ih _ _ _

/-- So does whatever searches behind the list of the connected peers. -/
theorem connectedPeers_searches {f : List PeerId → Action PeerId L1Result}
    (hf : ∀ l, Searches lib key (f l)) : Searches lib key (connectedPeers >>= f) :=
  .of_bind ((quiet_storeless (⟨none, false, none⟩ : Resolver PeerId) lib).connectedPeers_bound
    (P := 0) (h := [])).meets hf

/-- The parallel ranges search. -/
theorem tryDirectPeersRangeParallel_searches :
    Searches lib key (self.tryDirectPeersRangeParallel lib blobId key) := by
  have hq := quiet_storeless self lib
  refine connectedPeers_searches fun connected => ?_
  refine Searches.ite ?_ ?_
  · exact searches_none
  refine .of_bind (hq.payAll_meets (h := []) (connected.take maxParallel) _ _)
    fun payments => ?_
  refine .of_bind (hq.sendAll_bound (P := 0) (h := []) _).meets fun probes => ?_
  refine .of_bind (hq.awaitAll_meets (h := []) 5 probes) fun answers => ?_
  rcases answers.reduceOption.map Prod.fst with - | ⟨lead, others⟩
  · exact searches_none
  · exact rangeWindows_searches lead others _ _ _ _

/-- One search after another. -/
theorem orElse_searches {first next : Action PeerId L1Result} (hfirst : Searches lib key first)
    (hnext : Searches lib key next) : Searches lib key (orElse first next) := by
  refine hfirst.bind ?_
  rintro _ (_ | _ | ⟨peer, data, err⟩)
  · exact hnext
  · exact .here .panic
  · exact .here (.blob peer data err)

section Providers

variable [DecidableEq PeerId]

/-- A fetch from a provider searches. -/
theorem fetchFromProviders_searches (dhtPeers : List PeerId) :
    Searches lib key (self.fetchFromProviders lib blobId key dhtPeers) := by
  have hq := quiet_storeless self lib
  refine .of_bind (hq.dialProviders_bound (P := 0) (h := []) dhtPeers).meets fun _ => ?_
  refine .of_bind (hq.queryAndDial_bound (P := 0) (h := []) dhtPeers).meets fun _ => ?_
  refine .of_bind (hq.pollConnected_bound (P := 0) (h := []) dhtPeers _).meets fun polled => ?_
  rcases polled with - | peer
  · exact searches_none
  refine .of_bind (hq.resolvePayment_meets [] peer _ _) fun payment => ?_
  refine .of_bind (hq.fetch_bound (P := 0) (h := []) _).meets fun reply => ?_
  rcases reply with - | data
  · exact searches_none
  · exact finalizeL1Fetch_searches peer data payment.2

/-- The DHT part searches. -/
theorem tryProviders_searches : Searches lib key (self.tryProviders lib blobId key) := by
  have hq := quiet_storeless self lib
  refine .of_bind (hq.runFindProviders_bound (P := 0) (h := [])).meets fun found => ?_
  refine Searches.ite ?_ ?_
  · refine .of_bind (hq.retryFindProviders_bound (P := 0) (h := []) 3).meets fun retried => ?_
    refine Searches.ite ?_ ?_
    · exact searches_none
    · exact fetchFromProviders_searches retried
  · exact fetchFromProviders_searches _

/-- **A search over peers touches the store at its end only.** -/
theorem resolveFromL1_searches : Searches lib key (self.resolveFromL1 lib blobId key) :=
  orElse_searches tryDirectPeersRangeParallel_searches
    (orElse_searches (connectedPeers_searches directPeersRangeLoop_searches)
      (orElse_searches (connectedPeers_searches directPeersLoop_searches) tryProviders_searches))

end Providers

/-! ### The put and the eviction -/

variable {manager : EvictionManager} {overflowChecks : Bool} {faults : CacheFaults}
  {db db' db'' : BlobStore}

/-- Effects that do not use the store leave the database as it is. -/
theorem CacheStep.eq_of_storeless {e : Effect PeerId} {r : e.Ans} (he : e.usesStore = false)
    (hstep : CacheStep manager overflowChecks faults db e r db') : db' = db := by
  cases hstep with
  | other => rfl
  | get | getFails | put | putFails | evict => cases he

/-- A put works, or leaves the database as it is and is told to have failed. -/
theorem CacheStep.put_cases {data : Bytes} {r : Except String Unit}
    (hstep : CacheStep manager overflowChecks faults db
      (.storePut key data : Effect PeerId) r db') :
    (faults.put = none ∧ db' = db.put key data) ∨ (faults.put ≠ none ∧ db' = db ∧ r ≠ .ok ()) := by
  cases hstep with
  | put _ _ hput => exact .inl ⟨hput, rfl⟩
  | putFails _ _ e hput => exact .inr ⟨by simp [hput], rfl, by simp⟩
  | other _ _ he => cases he

/-- An eviction is one run of the eviction manager. -/
theorem CacheStep.evict_cases {r : ZingResult Unit}
    (hstep : CacheStep manager overflowChecks faults db (.evictionRun : Effect PeerId) r db') :
    db' = (db.runAlone faults.eviction (manager.run overflowChecks)).1 := by
  cases hstep with
  | evict _ _ hrun => rw [hrun]
  | other _ _ he => cases he

/-- The blob of a key is in the store after a resolve exactly when it is held. -/
structure Kept (manager : EvictionManager) (faults : CacheFaults) (db : BlobStore) (key : String)
    (data : Bytes) (db' : BlobStore) : Prop where
  held : Held manager faults db key data → db'.get key = some data
  gone : ¬ Held manager faults db key data → db'.get key = none

/-- A blob that was there stays there. -/
theorem Kept.of_hit {data : Bytes} (hhit : db.get key = some data) :
    Kept manager faults db key data db :=
  ⟨fun _ => hhit, fun hnot => absurd (.inl (by rw [hhit]; rfl)) hnot⟩

/-- **One put and one eviction.** -/
theorem Kept.of_put {data : Bytes} {r : Except String Unit} {r' : ZingResult Unit}
    (hmiss : db.get key = none)
    (hput : CacheStep manager overflowChecks faults db
      (.storePut key data : Effect PeerId) r db')
    (hevict : CacheStep manager overflowChecks faults db'
      (.evictionRun : Effect PeerId) r' db'') :
    Kept manager faults db key data db'' := by
  have hleaves := manager.leaves_run overflowChecks faults.eviction db'
  have hget : (db.get key).isSome = false := by rw [hmiss]; rfl
  rw [hevict.evict_cases]
  rcases hput.put_cases with ⟨hworks, rfl⟩ | ⟨hfails, rfl, -⟩
  · constructor
    · rintro (hthere | ⟨-, hnot⟩)
      · rw [hget] at hthere
        cases hthere
      · rw [hleaves.kept key hnot, BlobStore.get_put]
    · intro hnot
      exact hleaves.gone key (not_not.mp fun hkept => hnot (.inr ⟨hworks, hkept⟩))
  · constructor
    · rintro (hthere | ⟨hworks, -⟩)
      · rw [hget] at hthere
        cases hthere
      · exact absurd hworks hfails
    · intro _
      by_cases hevicts : manager.Evicts faults.eviction db' key
      · exact hleaves.gone key hevicts
      · rw [hleaves.kept key hevicts, hmiss]

/-- A fetched blob is kept as far as the put and the eviction go. -/
theorem keepFetched_kept {peer : PeerId} {data : Bytes} {err : Option String} {t : Trace PeerId}
    {r : L1Result} (hmiss : db.get key = none)
    (hrun : RunsAlone (CacheStep manager overflowChecks faults) db
      (keepFetched lib key peer data err) t r db') :
    r = some (.ok ⟨data, .l1Peer, true, err⟩) ∧ Kept manager faults db key data db' := by
  obtain ⟨stored, db₁, _, hput, hrun, -⟩ := RunsAlone.call_iff.mp hrun
  obtain ⟨evicted, db₂, _, hevict, hrun, -⟩ := RunsAlone.call_iff.mp hrun
  obtain ⟨_, db₃, _, hcredit, hrun, -⟩ := RunsAlone.call_iff.mp hrun
  obtain ⟨-, rfl, rfl⟩ := RunsAlone.ret_iff.mp hrun
  obtain rfl := hcredit.eq_of_storeless rfl
  exact ⟨rfl, .of_put hmiss hput hevict⟩

/-- A blob that is resolved is reported as cached, and kept as far as it is held. -/
def CachedAsReported (manager : EvictionManager) (faults : CacheFaults) (db : BlobStore)
    (key : String) (r : ZingResult ResolveResult) (db' : BlobStore) : Prop :=
  ∀ res, r = .ok res → res.cached = true ∧ Kept manager faults db key res.data db'

/-- What Walrus returns is cached as it is reported. -/
theorem resolveFromWalrus_reported {t : Trace PeerId} {r : ZingResult ResolveResult}
    (hmiss : db.get key = none)
    (hrun : RunsAlone (CacheStep manager overflowChecks faults) db
      (resolveFromWalrus blobId key) t r db') :
    CachedAsReported manager faults db key r db' := by
  obtain ⟨read, db₁, _, hread, hrun, -⟩ := RunsAlone.call_iff.mp hrun
  obtain rfl := hread.eq_of_storeless rfl
  rcases read with e | (data : Bytes)
  · obtain ⟨-, rfl, -⟩ := RunsAlone.ret_iff.mp hrun
    rintro res ⟨⟩
  obtain ⟨stored, db₂, _, hput, hrun, -⟩ := RunsAlone.call_iff.mp hrun
  rcases stored with e | _
  · obtain ⟨-, rfl, -⟩ := RunsAlone.ret_iff.mp hrun
    rintro res ⟨⟩
  obtain ⟨evicted, db₃, _, hevict, hrun, -⟩ := RunsAlone.call_iff.mp hrun
  rcases evicted with e | _
  · obtain ⟨-, rfl, -⟩ := RunsAlone.ret_iff.mp hrun
    rintro res ⟨⟩
  obtain ⟨-, rfl, rfl⟩ := RunsAlone.ret_iff.mp hrun
  rintro res ⟨⟩
  exact ⟨rfl, .of_put hmiss hput hevict⟩

/-- So is what any layer below the cache returns. -/
theorem resolveUncached_reported [DecidableEq PeerId] {t : Trace PeerId}
    {r : ZingResult ResolveResult} (hmiss : db.get key = none)
    (hrun : RunsAlone (CacheStep manager overflowChecks faults) db
      (self.resolveUncached lib blobId key) t r db') :
    CachedAsReported manager faults db key r db' := by
  rw [resolveUncached] at hrun
  split at hrun
  · obtain ⟨l1, db₁, t₁, t₂, hsearch, hrest, -⟩ := RunsAlone.bind_iff.mp hrun
    obtain ⟨q, t', hfound, hend⟩ := hsearch.exists_of_until
      (fun _ _ _ _ he hstep => hstep.eq_of_storeless he) resolveFromL1_searches
    cases hfound with
    | nothing =>
        obtain ⟨-, rfl, rfl⟩ := RunsAlone.ret_iff.mp hend
        exact resolveFromWalrus_reported hmiss hrest
    | panic => exact (RunsAlone.not_panic hend).elim
    | blob peer data err =>
        obtain ⟨rfl, hkept⟩ := keepFetched_kept hmiss hend
        obtain ⟨-, rfl, rfl⟩ := RunsAlone.ret_iff.mp hrest
        rintro res ⟨⟩
        exact ⟨rfl, hkept⟩
  · exact resolveFromWalrus_reported hmiss hrun

/-- **What a resolve alone does to the database.** -/
theorem resolve_reported [DecidableEq PeerId] {t : Trace PeerId} {r : ZingResult ResolveResult}
    (hrun : RunsAlone (CacheStep manager overflowChecks faults) db (self.resolve lib blobId) t r
      db') :
    CachedAsReported manager faults db (lib.blobIdToString blobId) r db' := by
  obtain ⟨cached, db₁, _, hget, hrun, -⟩ := RunsAlone.call_iff.mp hrun
  cases hget with
  | get _ hworks =>
      rcases hhit : db.get (lib.blobIdToString blobId) with - | data
      · rw [hhit] at hrun
        exact resolveUncached_reported hhit hrun
      · rw [hhit] at hrun
        obtain ⟨-, rfl, rfl⟩ := RunsAlone.ret_iff.mp hrun
        rintro res ⟨⟩
        exact ⟨rfl, .of_hit hhit⟩
  | getFails _ e hfails =>
      obtain ⟨-, rfl, -⟩ := RunsAlone.ret_iff.mp hrun
      rintro res ⟨⟩
  | other _ _ he => cases he

/-- A request that succeeds announces the blob in the state that its resolve left. -/
theorem resolveBlob_announces [DecidableEq PeerId] {state : HttpApiState PeerId}
    {formats : TextFormats} {text : String} {t : Trace PeerId} {info : BlobInfo}
    (hrun : RunsAlone (CacheStep manager overflowChecks faults) db
      (state.resolveBlob lib formats text) t (.ok info) db') :
    ∃ blobId res t' sent, formats.parseBlobId text = .ok blobId ∧
      RunsAlone (CacheStep manager overflowChecks faults) db (state.resolver.resolve lib blobId) t'
        (.ok res) db' ∧
      t = t' ++ [⟨.send (.announceBlob blobId.bytes), sent⟩] ∧ info.cached = res.cached := by
  rw [HttpApiState.resolveBlob] at hrun
  rcases hparse : formats.parseBlobId text with e | blobId
  · rw [hparse] at hrun
    obtain ⟨-, hret, -⟩ := RunsAlone.ret_iff.mp hrun
    cases hret
  rw [hparse] at hrun
  obtain ⟨r, db₁, t₁, t₂, hresolve, hrest, rfl⟩ := RunsAlone.bind_iff.mp hrun
  rcases r with e | res
  · obtain ⟨-, hret, -⟩ := RunsAlone.ret_iff.mp hrest
    cases hret
  rcases hinfo : buildBlobInfo formats text res.data res.resolution.source res.cached
      res.paymentError with - | built
  · simp only [hinfo] at hrest
    exact (RunsAlone.not_panic hrest).elim
  simp only [hinfo] at hrest
  obtain ⟨sent, db₂, _, hsend, hend, rfl⟩ := RunsAlone.call_iff.mp hrest
  obtain ⟨rfl, ⟨⟩, rfl⟩ := RunsAlone.ret_iff.mp hend
  obtain rfl := hsend.eq_of_storeless rfl
  refine ⟨blobId, res, t₁, sent, rfl, hresolve, rfl, ?_⟩
  rw [buildBlobInfo] at hinfo
  split at hinfo
  · cases hinfo
  · cases hinfo
    rfl

/-- A blob that is kept is in the database exactly when it is held. -/
theorem Kept.get_eq_some_iff {data : Bytes} (hkept : Kept manager faults db key data db') :
    db'.get key = some data ↔ Held manager faults db key data := by
  refine ⟨fun hget => ?_, hkept.held⟩
  by_contra hnot
  rw [hkept.gone hnot] at hget
  cases hget

/-- The same for any blob under the key. -/
theorem Kept.isSome_iff {data : Bytes} (hkept : Kept manager faults db key data db') :
    (db'.get key).isSome ↔ Held manager faults db key data := by
  refine ⟨fun hget => ?_, fun hheld => by rw [hkept.held hheld]; rfl⟩
  by_contra hnot
  rw [hkept.gone hnot] at hget
  cases hget

/-- **Reported caching**: a resolve that succeeds reports its blob as cached, and the blob is in
the store exactly when it is held; a request of the HTTP API announces it in that state. -/
theorem cached_iff_held [DecidableEq PeerId] (lib : Externals PeerId) (manager : EvictionManager)
    (overflowChecks : Bool) (faults : CacheFaults) (db : BlobStore) :
    (∀ (node : Resolver PeerId) (blobId : BlobId) (t : Trace PeerId) (res : ResolveResult)
        (db' : BlobStore),
      RunsAlone (CacheStep manager overflowChecks faults) db (node.resolve lib blobId) t (.ok res)
        db' →
      res.cached = true ∧
        (db'.get (lib.blobIdToString blobId) = some res.data ↔
          Held manager faults db (lib.blobIdToString blobId) res.data)) ∧
    (∀ (state : HttpApiState PeerId) (formats : TextFormats) (text : String) (t : Trace PeerId)
        (info : BlobInfo) (db' : BlobStore),
      RunsAlone (CacheStep manager overflowChecks faults) db (state.resolveBlob lib formats text) t
        (.ok info) db' →
      info.cached = true ∧
        ∃ blobId res t' sent, formats.parseBlobId text = .ok blobId ∧
          RunsAlone (CacheStep manager overflowChecks faults) db
            (state.resolver.resolve lib blobId) t' (.ok res) db' ∧
          t = t' ++ [⟨.send (.announceBlob blobId.bytes), sent⟩] ∧
          ((db'.get (lib.blobIdToString blobId)).isSome ↔
            Held manager faults db (lib.blobIdToString blobId) res.data)) := by
  constructor
  · intro node blobId t res db' hrun
    obtain ⟨hcached, hkept⟩ := resolve_reported hrun res rfl
    exact ⟨hcached, hkept.get_eq_some_iff⟩
  · intro state formats text t info db' hrun
    obtain ⟨blobId, res, t', sent, hparse, hresolve, ht, hinfo⟩ := resolveBlob_announces hrun
    obtain ⟨hcached, hkept⟩ := resolve_reported hresolve res rfl
    exact ⟨hinfo.trans hcached, blobId, res, t', sent, hparse, hresolve, ht, hkept.isSome_iff⟩

/-! ### A blob that is evicted at once -/

/-- The database and answers to all other effects, as a machine. -/
def cacheAnswer (manager : EvictionManager) (overflowChecks : Bool) (faults : CacheFaults)
    (other : (e : Effect PeerId) → e.Ans) (db : BlobStore) :
    (e : Effect PeerId) → e.Ans × BlobStore
  | .storeGet key =>
      match faults.get with
      | none => (.ok (db.get key), db)
      | some e => (.error e, db)
  | .storePut key data =>
      match faults.put with
      | none => (.ok (), db.put key data)
      | some e => (.error e, db)
  | .evictionRun =>
      let outcome := db.runAlone faults.eviction (manager.run overflowChecks)
      (outcome.2.getD (.ok ()), outcome.1)
  | e => (other e, db)

/-- The answers of the environment are those of the cache. -/
theorem cacheStep_cacheAnswer (other : (e : Effect PeerId) → e.Ans) (db : BlobStore)
    (e : Effect PeerId) :
    CacheStep manager overflowChecks faults db e
      (cacheAnswer manager overflowChecks faults other db e).1
      (cacheAnswer manager overflowChecks faults other db e).2 := by
  cases e with
  | storeGet key =>
      rcases hget : faults.get with - | e
      · simp only [cacheAnswer, hget]
        exact .get db key hget
      · simp only [cacheAnswer, hget]
        exact .getFails db key e hget
  | storePut key data =>
      rcases hput : faults.put with - | e
      · simp only [cacheAnswer, hput]
        exact .put db key data hput
      · simp only [cacheAnswer, hput]
        exact .putFails db key data e hput
  | evictionRun =>
      have hreturns := (manager.leaves_run overflowChecks faults.eviction db).returns
      obtain ⟨r, hr⟩ := Option.ne_none_iff_exists'.mp hreturns
      refine .evict _ _ _ (Prod.ext rfl ?_)
      show (db.runAlone faults.eviction (manager.run overflowChecks)).2
        = some ((db.runAlone faults.eviction (manager.run overflowChecks)).2.getD (.ok ()))
      rw [hr]
      rfl
  | _ => exact .other db _ _ rfl

/-- Without peers: the node lists none, and Walrus has the blob with the single byte 1. -/
def lonelyAnswer : (e : Effect ℕ) → e.Ans
  | .walrusRead _ => .ok [1]
  | .send _ => true
  | .await .getConnectedPeers _ => some []
  | .await (.findProviders _) _ => some []
  | .await _ _ => none
  | .storeGet _ => .ok none
  | .storePut .. => .ok ()
  | .evictionRun => .ok ()
  | .suiAddrCacheGet _ => none
  | .vaultAddrCacheContains _ => false
  | .onchainPay .. => ⟨.ok (), ⟨.ok (), [], .ok []⟩, .ok (), .ok (), .ok none⟩
  | .paymentCounterFetchAdd => (0 : ℕ)
  | .sleep _ | .suiAddrCacheInsert .. | .spawnVaultLookup _ | .recordCorruption _
  | .recordSuccess _ => ()

/-- A database with a pinned blob of three bytes. -/
def pinnedStore : BlobStore where
  blobs := AList.singleton "a" [1, 2, 3]
  pins := {"a"}

/-- No operation fails. -/
def noFaults : CacheFaults := ⟨none, none, fun _ => none⟩

/-- The resolve of the blob with the single byte 1, within a budget. -/
def lonelyResolve (budget : ℕ) :
    Trace ℕ × Option (ZingResult ResolveResult) × BlobStore :=
  execAlone (cacheAnswer ⟨budget⟩ true noFaults lonelyAnswer) pinnedStore
    ((⟨some 0, true, none⟩ : Resolver ℕ).resolve sampleExternals (sampleBlobId [1]))

/-- A request for it. -/
def lonelyRequest (budget : ℕ) : Trace ℕ × Option (Except String BlobInfo) × BlobStore :=
  execAlone (cacheAnswer ⟨budget⟩ true noFaults lonelyAnswer) pinnedStore
    ((⟨0, none⟩ : HttpApiState ℕ).resolveBlob sampleExternals sampleFormats sampleKey)

/-- **A blob is announced that is not there**: the store is full of a pinned blob, so that the
eviction after the put takes the new blob at once; it is reported as cached and announced. -/
theorem not_cached_held :
    (∃ t res db', RunsAlone (CacheStep ⟨3⟩ true noFaults) pinnedStore
        ((⟨some 0, true, none⟩ : Resolver ℕ).resolve sampleExternals (sampleBlobId [1])) t
        (.ok res) db' ∧
      res.cached = true ∧ db'.get sampleKey = none) ∧
    (∃ t info db', RunsAlone (CacheStep ⟨3⟩ true noFaults) pinnedStore
        ((⟨0, none⟩ : HttpApiState ℕ).resolveBlob sampleExternals sampleFormats sampleKey) t
        (.ok info) db' ∧
      info.cached = true ∧
      t.getLast? = some ⟨.send (.announceBlob (sampleBlobId [1]).bytes), true⟩ ∧
      db'.get sampleKey = none) := by
  constructor
  · refine ⟨(lonelyResolve 3).1, ⟨[1], .l3Walrus, true, none⟩, (lonelyResolve 3).2.2,
      runsAlone_execAlone (cacheStep_cacheAnswer lonelyAnswer) rfl, rfl, ?_⟩
    decide +kernel
  · refine ⟨(lonelyRequest 3).1, _, (lonelyRequest 3).2.2,
      runsAlone_execAlone (cacheStep_cacheAnswer lonelyAnswer) rfl, rfl, rfl, ?_⟩
    decide +kernel

/-- With one byte more in the budget the blob stays. -/
theorem cached_iff_held_lonely :
    ∃ t res db', RunsAlone (CacheStep ⟨4⟩ true noFaults) pinnedStore
        ((⟨some 0, true, none⟩ : Resolver ℕ).resolve sampleExternals (sampleBlobId [1])) t
        (.ok res) db' ∧
      (db'.get sampleKey = some res.data ↔ Held ⟨4⟩ noFaults pinnedStore sampleKey res.data) ∧
      db'.get sampleKey = some [1] := by
  have hrun : RunsAlone (CacheStep ⟨4⟩ true noFaults) pinnedStore
      ((⟨some 0, true, none⟩ : Resolver ℕ).resolve sampleExternals (sampleBlobId [1]))
      (lonelyResolve 4).1 (.ok ⟨[1], .l3Walrus, true, none⟩) (lonelyResolve 4).2.2 :=
    runsAlone_execAlone (cacheStep_cacheAnswer lonelyAnswer) rfl
  have hcached := (cached_iff_held sampleExternals ⟨4⟩ true noFaults pinnedStore).1 _ _ _ _ _ hrun
  exact ⟨_, _, _, hrun, hcached.2, by decide +kernel⟩

end ZingCdn
