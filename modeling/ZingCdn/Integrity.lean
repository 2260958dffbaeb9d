import ZingCdn.Library.Interleaving
import ZingCdn.Liveness

/-!
# Content Integrity

Any number of resolves run interleaved over one blob store, against any peers, any DHT
and any RPC node. The bytes under a key of the store always have the blob id the key
spells, although cached bytes are returned unverified: every path that writes the store
or returns bytes from the network has verified them.

The store (`NodeStore`) is a map with a log of the writes; reads and writes may fail, and
an eviction removes any keys. The Walrus client is assumed to return data of the requested
blob only, which is what its strict consistency check is for.

## Main results

* `resolve_meets_integrity`: one resolve, against any environment.
* `content_integrity`: every reachable pool of resolves.
-/

open Program Program.Prog

namespace ZingCdn

variable {PeerId : Type}

/-- The data has the blob id that the key spells. -/
def Genuine (lib : Externals PeerId) (key : String) (data : Bytes) : Prop :=
  ∃ blobId, lib.blobIdToString blobId = key ∧ lib.computeBlobId data = .ok blobId

/-- With ids spelled injectively, genuine data under a blob's key has that blob's id. -/
theorem Genuine.computeBlobId_eq {lib : Externals PeerId}
    (hinj : Function.Injective lib.blobIdToString) {blobId : BlobId} {data : Bytes}
    (h : Genuine lib (lib.blobIdToString blobId) data) : lib.computeBlobId data = .ok blobId := by
  obtain ⟨id, hkey, hid⟩ := h
  rw [hid, hinj hkey]

/-! ### One resolve -/

/-- The store holds genuine data, and Walrus returns the requested blob. -/
def integrityRely (lib : Externals PeerId) : (e : Effect PeerId) → e.Ans → Prop
  | .storeGet key, r => ∀ data, r = .ok (some data) → Genuine lib key data
  | .walrusRead blobId, r => ∀ data, r = .ok data → lib.computeBlobId data = .ok blobId
  | _, _ => True

/-- Only genuine data is written. -/
def integrityGuarantee (lib : Externals PeerId) : Effect PeerId → Prop
  | .storePut key data => Genuine lib key data
  | _ => True

/-- The contract of a resolve for content integrity. -/
def integrityContract (lib : Externals PeerId) : Contract (@Effect.Ans PeerId) where
  rely _ := integrityRely lib
  guarantee _ := integrityGuarantee lib
  mayPanic := True

/-- The returned data is the requested blob's. -/
def HasBlob (lib : Externals PeerId) (blobId : BlobId) (r : ZingResult ResolveResult) : Prop :=
  ∀ res, r = .ok res → lib.computeBlobId res.data = .ok blobId

/-- The end of a fetch writes and returns verified data only. -/
theorem finalizeL1Fetch_integrity (lib : Externals PeerId) (blobId : BlobId)
    (h : Trace PeerId) (peer : PeerId) (data : Bytes) (err : Option String) :
    Meets (integrityContract lib) h
      (Resolver.finalizeL1Fetch lib blobId (lib.blobIdToString blobId) peer data err)
      fun _ r => ∀ x, r = some x → HasBlob lib blobId x := by
  rw [Resolver.finalizeL1Fetch]
  cases hverified : verifyBlobById lib blobId data with
  | error e => exact ⟨trivial, fun _ _ _ hnone => by cases hnone⟩
  | ok u =>
      have hdata := verifyBlobById_eq_ok_iff.mp hverified
      refine ⟨⟨blobId, rfl, hdata⟩, fun _ _ => ⟨trivial, fun _ _ => ⟨trivial, fun _ _ => ?_⟩⟩⟩
      rintro _ ⟨⟩ _ ⟨⟩
      exact hdata

/-- The strategies keep integrity, given that the end of a fetch does. -/
theorem tame_integrity (self : Resolver PeerId) (lib : Externals PeerId) (blobId : BlobId) :
    Tame self lib (integrityContract lib) blobId (lib.blobIdToString blobId)
      fun r => ∀ x, r = some x → HasBlob lib blobId x where
  benign h e he _ _ := by
    cases e <;> trivial
  sends _ _ := trivial
  payments h e he := by
    cases e with
    | suiAddrCacheGet | onchainPay | paymentCounterFetchAdd => trivial
    | _ => cases he
  pays := fun _ _ _ _ _ _ _ _ _ _ _ => trivial
  finalize := finalizeL1Fetch_integrity lib blobId
  nothing := by simp

/-- Walrus data is written and returned as read. -/
theorem resolveFromWalrus_integrity (lib : Externals PeerId) (blobId : BlobId)
    (h : Trace PeerId) :
    Meets (integrityContract lib) h
      (Resolver.resolveFromWalrus blobId (lib.blobIdToString blobId))
      fun _ r => HasBlob lib blobId r := by
  refine meets_resolveFromWalrus trivial (fun data hread => ?_) (fun _ => trivial)
    fun h' e res hres => by cases hres
  refine ⟨⟨blobId, rfl, hread data rfl⟩, ?_⟩
  rintro h' res ⟨⟩
  exact hread data rfl

/-- **One resolve keeps integrity**: given a genuine store, it writes genuine data only and
returns the requested blob. -/
theorem resolve_meets_integrity [DecidableEq PeerId] (self : Resolver PeerId)
    {lib : Externals PeerId} (hinj : Function.Injective lib.blobIdToString) (blobId : BlobId) :
    Meets (integrityContract lib) [] (self.resolve lib blobId)
      fun _ r => HasBlob lib blobId r := by
  refine meets_resolve trivial (fun e _ res hres => by cases hres) (fun data hcached => ?_)
    fun _ => ?_
  · rintro res ⟨⟩
    exact (hcached data rfl).computeBlobId_eq hinj
  · have hl1 := (tame_integrity self lib blobId).resolveFromL1_bound (P := 0)
      (h := [] ++ [⟨.storeGet (lib.blobIdToString blobId), .ok none⟩])
    exact meets_resolveUncached hl1.meets (fun h' result hgood => hgood result rfl)
      (fun h' _ => resolveFromWalrus_integrity lib blobId h')
      fun _ => resolveFromWalrus_integrity lib blobId _

/-! ### Any number of resolves -/

/-- The blob store, with every pair ever written to it. -/
structure NodeStore where
  blobs : String → Option Bytes
  written : List (String × Bytes)

/-- How the store and the Walrus client answer the effects of a resolve; every other
effect may be answered in any way. -/
inductive StoreStep (lib : Externals PeerId) :
    NodeStore → (e : Effect PeerId) → e.Ans → NodeStore → Prop
  | get (s : NodeStore) (key : String) : StoreStep lib s (.storeGet key) (.ok (s.blobs key)) s
  | getFails (s : NodeStore) (key msg : String) : StoreStep lib s (.storeGet key) (.error msg) s
  | put (s : NodeStore) (key : String) (data : Bytes) :
      StoreStep lib s (.storePut key data) (.ok ())
        ⟨Function.update s.blobs key (some data), (key, data) :: s.written⟩
  | putFails (s : NodeStore) (key : String) (data : Bytes) (msg : String) :
      StoreStep lib s (.storePut key data) (.error msg) s
  | evict (s : NodeStore) (kept : String → Bool) (r : ZingResult Unit) :
      StoreStep lib s .evictionRun r
        { s with blobs := fun key => if kept key then s.blobs key else none }
  | walrus (s : NodeStore) (blobId : BlobId) (r : Except String Bytes) :
      (∀ data, r = .ok data → lib.computeBlobId data = .ok blobId) →
        StoreStep lib s (.walrusRead blobId) r s
  | other (s : NodeStore) (e : Effect PeerId) (r : e.Ans) :
      (∀ key, e ≠ .storeGet key) → (∀ key data, e ≠ .storePut key data) →
        e ≠ .evictionRun → (∀ blobId, e ≠ .walrusRead blobId) → StoreStep lib s e r s

/-- The store holds, and was written, genuine data only. -/
structure NodeStore.Genuine (lib : Externals PeerId) (s : NodeStore) : Prop where
  blobs : ∀ key data, s.blobs key = some data → ZingCdn.Genuine lib key data
  written : ∀ entry ∈ s.written, ZingCdn.Genuine lib entry.1 entry.2

/-- A fresh node: a store of genuine data, nothing written yet. -/
def NodeStore.Initial (lib : Externals PeerId) (s : NodeStore) : Prop :=
  (∀ key data, s.blobs key = some data → ZingCdn.Genuine lib key data) ∧ s.written = []

/-- Resolves interleaved over a store, each task tagged with the requested blob. -/
def ReachableResolves [DecidableEq PeerId] (self : Resolver PeerId) (lib : Externals PeerId) :
    Pool (@Effect.Ans PeerId) NodeStore BlobId (ZingResult ResolveResult) → Prop :=
  Pool.Reachable (NodeStore.Initial lib) (StoreStep lib) (self.resolve lib)

/-- An effect of a resolve keeps the store genuine and is answered as relied on. -/
theorem StoreStep.genuine {lib : Externals PeerId} {s s' : NodeStore} {e : Effect PeerId}
    {r : e.Ans} (hs : s.Genuine lib) (hguarantee : integrityGuarantee lib e)
    (hstep : StoreStep lib s e r s') : s'.Genuine lib ∧ integrityRely lib e r := by
  cases hstep with
  | get key =>
      refine ⟨hs, fun data hdata => hs.blobs key data ?_⟩
      exact Except.ok.inj hdata
  | getFails key msg => exact ⟨hs, fun data hdata => by cases hdata⟩
  | put key data =>
      refine ⟨⟨fun key' data' hget => ?_, fun entry hmem => ?_⟩, trivial⟩
      · dsimp only at hget
        by_cases hkey : key' = key
        · subst hkey
          rw [Function.update_self] at hget
          obtain rfl := Option.some.inj hget
          exact hguarantee
        · rw [Function.update_of_ne hkey] at hget
          exact hs.blobs key' data' hget
      · rcases List.mem_cons.mp hmem with rfl | hmem
        · exact hguarantee
        · exact hs.written entry hmem
  | putFails key data msg => exact ⟨hs, trivial⟩
  | evict kept r =>
      refine ⟨⟨fun key data hget => hs.blobs key data ?_, hs.written⟩, trivial⟩
      by_cases hkept : kept key
      · simpa [hkept] using hget
      · simp [hkept] at hget
  | walrus blobId r hread => exact ⟨hs, hread⟩
  | other e r hget hput hevict hread =>
      refine ⟨hs, ?_⟩
      cases e <;> first | trivial | exact absurd rfl (hget _) | exact absurd rfl (hread _)

/-- **Content integrity**: in every run of resolves, interleaved in any way and whatever
the peers, the DHT and the RPC node answer, every pair ever written to the store and every
entry of it is genuine, and every blob a resolve returned has the requested id. -/
theorem content_integrity [DecidableEq PeerId] {self : Resolver PeerId}
    {lib : Externals PeerId} (hinj : Function.Injective lib.blobIdToString)
    {pool : Pool (@Effect.Ans PeerId) NodeStore BlobId (ZingResult ResolveResult)}
    (hreach : ReachableResolves self lib pool) :
    (∀ entry ∈ pool.shared.written, Genuine lib entry.1 entry.2) ∧
      (∀ key data, pool.shared.blobs key = some data → Genuine lib key data) ∧
      ∀ task ∈ pool.tasks, ∀ res, task.rest = .ret (.ok res) →
        lib.computeBlobId res.data = .ok task.tag := by
  obtain ⟨hstore, htasks⟩ := Pool.rely_guarantee (NodeStore.Genuine lib)
    (fun _ => integrityContract lib) (fun blobId _ r => HasBlob lib blobId r)
    (fun s hs => ⟨hs.1, by simp [hs.2]⟩)
    (fun blobId => resolve_meets_integrity self hinj blobId)
    (fun _ _ _ _ _ _ hs hguarantee hstep => hstep.genuine hs hguarantee) hreach
  refine ⟨hstore.written, hstore.blobs, fun task hmem res hrest => ?_⟩
  have htask := htasks task hmem
  rw [hrest] at htask
  exact htask res rfl

/-! ### A corrupting peer and a seeder -/

/-- The store after an event; an eviction finds room enough. -/
def storeNext (s : NodeStore) : Event (@Effect.Ans ℕ) → NodeStore
  | ⟨.storePut key data, _⟩ =>
      ⟨Function.update s.blobs key (some data), (key, data) :: s.written⟩
  | _ => s

/-- The store after a history, from an empty one. -/
def storeAfter (h : Trace ℕ) : NodeStore := h.foldl storeNext ⟨fun _ => none, []⟩

/-- Two connected peers: the first sends the byte 2 for every range and no whole blob, the
second sends the byte 1 for everything. Walrus is out of reach. -/
def corruptedEnv (h : Trace ℕ) : (e : Effect ℕ) → e.Ans
  | .storeGet key => .ok ((storeAfter h).blobs key)
  | .await .getConnectedPeers _ => some [0, 1]
  | .await (.fetchRange peer ..) _ => some (.ok [if peer = 0 then 2 else 1])
  | .await (.fetchBlob peer ..) _ => if peer = 0 then none else some (.ok [1])
  | .await _ _ => none
  | .walrusRead _ => .error "unreachable"
  | e => garbageEnv h e

/-- The environment answers as the store does. -/
theorem storeStep_corruptedEnv (h : Trace ℕ) (e : Effect ℕ) :
    StoreStep sampleExternals (storeAfter h) e (corruptedEnv h e)
      (storeAfter (h ++ [⟨e, corruptedEnv h e⟩])) := by
  rw [storeAfter, storeAfter, List.foldl_append]
  cases e with
  | storeGet key => exact .get _ key
  | storePut key data => exact .put _ key data
  | evictionRun => exact .evict _ (fun _ => true) _
  | walrusRead blobId => exact .walrus _ blobId _ (by rintro _ ⟨⟩)
  | _ => exact .other _ _ _ (by rintro _ ⟨⟩) (by rintro _ _ ⟨⟩) (by rintro ⟨⟩) (by rintro _ ⟨⟩)

/-- The resolve among the two peers, with its history. -/
def corruptedRun : Trace ℕ × Option (ZingResult ResolveResult) :=
  exec corruptedEnv [] (onlineResolver.resolve sampleExternals (sampleBlobId [1]))

/-- What the first peer sends is neither stored nor returned, what the second one sends is. -/
theorem content_integrity_corrupted :
    (storeAfter corruptedRun.1).written = [(sampleKey, [1])] ∧
      Genuine sampleExternals sampleKey [1] ∧
      sampleExternals.computeBlobId [1] = .ok (sampleBlobId [1]) := by
  have hend : corruptedRun.2 = some (.ok ⟨[1], .l1Peer, true, none⟩) := rfl
  have hwritten : (storeAfter corruptedRun.1).written = [(sampleKey, [1])] := rfl
  have hfollows : Pool.Follows (StoreStep sampleExternals) ⟨fun _ => none, []⟩ corruptedRun.1
      (storeAfter corruptedRun.1) :=
    Pool.follows_exec storeStep_corruptedEnv [] _
  have hrun : (onlineResolver.resolve sampleExternals (sampleBlobId [1])).Runs corruptedRun.1
      (some (.ok ⟨[1], .l1Peer, true, none⟩)) :=
    hend ▸ runs_exec corruptedEnv [] _
  have hinit : NodeStore.Initial sampleExternals ⟨fun _ => none, []⟩ := ⟨by rintro _ _ ⟨⟩, rfl⟩
  have hreach : ReachableResolves onlineResolver sampleExternals
      ⟨storeAfter corruptedRun.1, [⟨sampleBlobId [1], corruptedRun.1, _⟩]⟩ :=
    Pool.Reachable.of_runs hinit hfollows hrun
  obtain ⟨hgenuine, -, hreturned⟩ := content_integrity
    sampleExternals_blobIdToString_injective hreach
  exact ⟨hwritten, hgenuine (sampleKey, [1]) (hwritten ▸ List.mem_cons_self),
    hreturned _ List.mem_cons_self _ rfl⟩

end ZingCdn
