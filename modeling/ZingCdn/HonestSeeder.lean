import ZingCdn.Liveness
import ZingCdn.RangeAssembly

/-!
# One Honest Seeder

When does a resolve of an uncached blob end with a connected peer's copy? A connected peer
may be a seeder, which holds the blob and whose handler answers every fetch; it may refuse
every fetch; or it may do anything. The design asks that corrupted data be discarded and
the next seeder tried. Each direct strategy does pass over a peer that delivers nothing,
but leaves on the first data that fails verification, and all of them take the peers in
one order. So a resolve ends with a peer's copy, whatever the rest do, exactly when the
first connected peer that delivers anything is a seeder.

A strategy that fails leads to the next one, so for the positive direction the sequential
ranges alone decide. For the other direction every peer of unknown behaviour sends the
same wrong bytes, and none of the four strategies has a result.

## Main results

* `honest_seeder_iff`: the exact condition.
* `not_honest_seeder`: a corrupting peer before a seeder, and the resolve falls back to
  Walrus.
-/

open Program Program.Prog

namespace ZingCdn

open Resolver

variable {PeerId : Type}

/-! ### Connected peers -/

/-- How a peer answers the fetches of one blob. -/
inductive Behaviour
  /-- it holds the blob, and its handler answers every fetch -/
  | seeding
  /-- no fetch is answered with data -/
  | refusing
  | arbitrary
deriving DecidableEq

/-- The data in the response of a peer's handler to a fetch. -/
def handlerData (lib : Externals PeerId) (store : StoreRead) (requestCounter : ℕ) :
    P2pCommand PeerId → Option Bytes
  | .fetchBlob _ blobId proof =>
      (handleInboundRequest lib store requestCounter ⟨blobId, 0, proof⟩).1.data
  | .fetchRange _ blobId offset length proof =>
      (handleInboundRangeRequest lib store requestCounter ⟨blobId, offset, length, proof⟩).bind
        fun r => r.1.data
  | _ => none

/-- The connected peers in their order, how each peer behaves, and the store it serves
from. -/
structure Swarm (lib : Externals PeerId) (blobId : BlobId) (blob : Bytes) where
  connected : List PeerId
  behaviour : PeerId → Behaviour
  store : PeerId → StoreRead
  /-- the seeding peers hold the blob -/
  holds : ∀ peer, behaviour peer = .seeding →
    store peer (lib.blobIdToString blobId) = .ok (some blob)

namespace Swarm

variable {lib : Externals PeerId} {blobId : BlobId} {blob : Bytes} (s : Swarm lib blobId blob)

/-- The data that a fetch from a peer may come back with. A seeding peer sends its
handler's response to a request that is paid or not at a spot check. -/
def Delivers (peer : PeerId) (cmd : P2pCommand PeerId) (data : Option Bytes) : Prop :=
  match s.behaviour peer with
  | .seeding => ∃ requestCounter,
      (cmd.proof? ≠ some zeroBytes32 ∨ isSpotCheck requestCounter = false) ∧
        data = handlerData lib (s.store peer) requestCounter cmd
  | .refusing => data = none
  | .arbitrary => True

/-- The answers in a resolve of the uncached blob: the P2P node takes every command and
knows the connected peers, and these behave as they do. -/
def Answers : (e : Effect PeerId) → e.Ans → Prop
  | .storeGet _, r => r = .ok none
  | .send _, sent => sent = true
  | .await .getConnectedPeers _, reply => reply = some s.connected
  | .await cmd _, reply => ∀ peer, cmd.source? = some peer →
      s.Delivers peer cmd (Option.bind reply cmd.data?)
  | .onchainPay .., o => OnchainOutcome.DigestFits lib o
  | _, _ => True

/-- The first connected peer that may deliver data. -/
def firstDelivering : Option PeerId :=
  s.connected.find? fun peer => s.behaviour peer ≠ .refusing

theorem answers_digestRely {e : Effect PeerId} {r : e.Ans} (hr : s.Answers e r) :
    digestRely lib e r := by
  cases e with
  | onchainPay => exact hr
  | _ => trivial

/-! ### What a seeding peer sends -/

variable {s} {peer : PeerId}

/-- A seeding peer answers a range request with the range. -/
theorem delivers_range (hpeer : s.behaviour peer = .seeding) {offset length : ℕ}
    {proof : Bytes32} {data : Option Bytes} (hfit : blob.length + length ≤ u64Max)
    (hdata : s.Delivers peer (.fetchRange peer blobId.bytes offset length proof) data) :
    data = if blob.length ≤ offset then none else some (slice blob offset length) := by
  rw [Delivers] at hdata
  rw [hpeer] at hdata
  obtain ⟨counter, hserved, rfl⟩ := hdata
  have hpaid : proof ≠ zeroBytes32 ∨ isSpotCheck counter = false := by
    simpa [P2pCommand.proof?] using hserved
  have hstore := s.holds peer hpeer
  by_cases hend : blob.length ≤ offset
  · rw [if_pos hend]
    exact handleInboundRangeRequest_past_end hstore hend
  · have hlt : offset + length ≤ u64Max := by omega
    obtain ⟨next, heq⟩ := @handleInboundRangeRequest_eq PeerId lib (s.store peer) counter
      ⟨blobId.bytes, offset, length, proof⟩ blob hstore hpaid hlt
    rw [handlerData, heq]
    rfl

/-! ### Runs among the peers -/

section Runs

variable {self : Resolver PeerId} {key : String} {h : Trace PeerId}
  {rely : (e : Effect PeerId) → e.Ans → Prop} (hrely : ∀ e r, rely e r → s.Answers e r)
include hrely

/-- Every strategy can be run among the peers. -/
theorem tame_answers (hcoin : self.CoinTypeParses lib) (key : String) :
    Tame self lib (.under rely) blobId key FromPeer :=
  (tame_live hcoin blobId key).weaken (fun _ e r hr => answers_digestRely s (hrely e r hr))
    (fun _ _ _ => trivial) id

/-- The connected peers are known. -/
theorem connectedPeers_answers :
    Meets (.under rely) h (@connectedPeers PeerId) fun _ l => l = s.connected :=
  meets_connectedPeers (hrely _) (hrely (.await .getConnectedPeers none))

/-- A fetch comes back with what its peer delivers. -/
theorem fetch_delivers {cmd : P2pCommand PeerId} (hsource : cmd.source? = some peer) :
    Meets (.under rely) h (fetch cmd) fun _ data => s.Delivers peer cmd data := by
  refine meets_fetch trivial trivial (fun hlost => ?_) fun _ reply hreply => ?_
  · exact absurd (hrely _ _ hlost) Bool.false_ne_true
  · have hdelivers := hrely _ _ hreply
    cases cmd with
    | getConnectedPeers => cases hsource
    | _ => exact hdelivers peer hsource

/-- **Sequential ranges end with the blob** when the first peer that delivers is a
seeder. -/
theorem directPeersRangeLoop_seeding (hcoin : self.CoinTypeParses lib)
    (hid : lib.computeBlobId blob = .ok blobId) (hne : 0 < blob.length)
    (hmax : blob.length ≤ 32 * 1024 * 1024) (hpeer : s.behaviour peer = .seeding)
    {l : List PeerId} (hfirst : l.find? (fun p => s.behaviour p ≠ .refusing) = some peer) :
    Meets (.under rely) h (self.directPeersRangeLoop lib blobId key l)
      fun _ r => ∃ res, r = some (.ok res) ∧ res.resolution = .l1Peer := by
  have ht := tame_answers hrely hcoin key
  have hchunk : ∀ h offset proof, Meets (.under rely) h
      (fetch (.fetchRange peer blobId.bytes offset rangeChunk proof)) fun _ data =>
        data = if blob.length ≤ offset then none else some (slice blob offset rangeChunk) :=
    fun h offset proof => (fetch_delivers hrely rfl).mono fun _ _ _ hdata =>
      delivers_range hpeer (by simp only [u64Max, rangeChunk]; omega) hdata
  have hfinal : ∀ h err, Meets (.under rely) h (finalizeL1Fetch lib blobId key peer blob err)
      fun _ r => ∃ res, r = some (.ok res) ∧ res.resolution = .l1Peer :=
    fun h err => (finalizeL1Fetch_verified hid key peer err).mono fun _ _ _ hr => ⟨_, hr, rfl⟩
  induction l generalizing h with
  | nil => simp at hfirst
  | cons p rest ih =>
      rw [directPeersRangeLoop]
      refine (ht.resolvePayment_meets h p _ _).bind fun h₁ payment _ _ => ?_
      by_cases hrefuse : s.behaviour p = .refusing
      · -- nothing comes back, and the next peer is asked
        have hrest : rest.find? (fun p => s.behaviour p ≠ .refusing) = some peer := by
          simpa [List.find?_cons, hrefuse] using hfirst
        refine (fetch_delivers hrely rfl).bind fun h₂ reply _ hreply => ?_
        obtain rfl : reply = none := by simpa [Delivers, hrefuse] using hreply
        exact ih hrest
      · obtain rfl : p = peer := by
          simpa [List.find?_cons, hrefuse] using hfirst
        refine (hchunk h₁ 0 _).bind fun h₂ reply _ hreply => ?_
        rw [if_neg (by omega)] at hreply
        subst hreply
        have hlen := slice_length blob 0 rangeChunk
        refine Meets.ite (fun hshort => ?_) fun hfull => ?_
        · have hall : slice blob 0 rangeChunk = blob := by
            simpa [slice] using by omega
          rw [hall]
          exact hfinal _ _
        · refine (rangeChunks_of_first (fun h amount => ht.resolvePayment_meets h p _ amount)
            (fun h offset proof _ _ => (hchunk h offset proof).mono fun _ data _ hdata => ?_)
            payment.2 hfull).bind fun h₃ assembled _ hdone => ?_
          · rw [hdata, RangeAnswer]
            split <;> simp_all
          · rcases hdone with ⟨-, err, rfl⟩ | ⟨hlong, -⟩
            · exact hfinal _ err
            · simp only [maxChunks, rangeChunk] at hlong
              omega

end Runs

/-- **A resolve ends with a peer's copy** when the first peer that delivers is a seeder. -/
theorem resolve_seeding [DecidableEq PeerId] {self : Resolver PeerId}
    (hp2p : self.hasP2pChannel = true) (hcoin : self.CoinTypeParses lib)
    (hid : lib.computeBlobId blob = .ok blobId) (hne : 0 < blob.length)
    (hmax : blob.length ≤ 32 * 1024 * 1024) (hpeer : s.behaviour peer = .seeding)
    (hfirst : s.firstDelivering = some peer) :
    Meets (.under s.Answers) [] (self.resolve lib blobId)
      fun _ r => ∃ res, r = .ok res ∧ res.resolution = .l1Peer := by
  have hrely : ∀ e r, s.Answers e r → s.Answers e r := fun _ _ hr => hr
  have ht := tame_answers hrely hcoin (lib.blobIdToString blobId)
  have hl1 : ∀ h, Meets (.under s.Answers) h
      (self.resolveFromL1 lib blobId (lib.blobIdToString blobId))
      fun _ r => ∃ res, r = some (.ok res) ∧ res.resolution = .l1Peer := by
    intro h
    -- the parallel ranges end with a peer's copy or lead to the sequential ones
    refine meets_orElse ((ht.tryDirectPeersRangeParallel_bound (P := 0)).meets.mono
      fun h₁ r _ hr => ⟨fun _ => meets_orElse ?_, fun hsome => ?_⟩)
    · refine (connectedPeers_answers hrely).bind fun h₂ l _ hl => ?_
      rw [hl]
      refine (directPeersRangeLoop_seeding hrely hcoin hid hne hmax hpeer hfirst).mono ?_
      rintro _ _ _ ⟨res, rfl, hres⟩
      exact ⟨fun hnone => absurd hnone (Option.some_ne_none _), fun _ => ⟨res, rfl, hres⟩⟩
    · obtain ⟨result, rfl⟩ := Option.ne_none_iff_exists'.mp hsome
      obtain ⟨res, rfl, hres⟩ := hr result rfl
      exact ⟨res, rfl, hres⟩
  -- the blob is not in the cache
  refine meets_resolve trivial (fun e he => by cases he) (fun data hdata => by cases hdata)
    fun _ => ?_
  refine meets_resolveUncached (hl1 _) ?_ ?_ fun hno => by rw [hp2p] at hno; cases hno
  · rintro h' result ⟨res, hres, hpeer⟩
    exact ⟨res, Option.some.inj hres, hpeer⟩
  · rintro h' ⟨res, hres, -⟩
    cases hres

/-! ### The worst peers -/

/-- The worst answers of the peers of unknown behaviour: they send `g` for every fetch, and
the DHT knows no providers. -/
def Worst (s : Swarm lib blobId blob) (g : Bytes) (e : Effect PeerId) (r : e.Ans) : Prop :=
  s.Answers e r ∧
    match e, r with
    | .await (.findProviders _) _, reply => reply = none
    | .await cmd _, reply => ∀ peer, cmd.source? = some peer → s.behaviour peer = .arbitrary →
        Option.bind reply cmd.data? = some g
    | _, _ => True

/-- A fetch can come back with any data. -/
theorem exists_reply {cmd : P2pCommand PeerId} (hsource : cmd.source? = some peer)
    (data : Option Bytes) : ∃ reply : Option cmd.Reply, Option.bind reply cmd.data? = data := by
  cases cmd with
  | fetchBlob | fetchRange | fetchSliver =>
      cases data with
      | none => exact ⟨none, rfl⟩
      | some data => exact ⟨some (.ok data), rfl⟩
  | _ => cases hsource

/-- The peers can always answer in the worst way. -/
theorem exists_worst (s : Swarm lib blobId blob) (g : Bytes) (e : Effect PeerId) :
    ∃ r, s.Worst g e r := by
  cases e with
  | await cmd timeout =>
      cases hsource : cmd.source? with
      | none =>
          cases cmd with
          | getConnectedPeers => exact ⟨some s.connected, rfl, by simp [P2pCommand.source?]⟩
          | fetchBlob | fetchRange | fetchSliver => cases hsource
          | findProviders => exact ⟨none, by simp [Answers, P2pCommand.source?], rfl⟩
          | _ => exact ⟨none, by simp [Answers, P2pCommand.source?], by simp [P2pCommand.source?]⟩
      | some peer =>
          have hdata : ∃ data, s.Delivers peer cmd data ∧
              (s.behaviour peer = .arbitrary → data = some g) := by
            unfold Delivers
            cases s.behaviour peer with
            | seeding => exact ⟨_, ⟨1, .inr rfl, rfl⟩, by simp⟩
            | refusing => exact ⟨none, rfl, by simp⟩
            | arbitrary => exact ⟨some g, trivial, by simp⟩
          obtain ⟨data, hdelivers, hworst⟩ := hdata
          obtain ⟨reply, rfl⟩ := exists_reply hsource data
          cases cmd with
          | fetchBlob | fetchRange | fetchSliver =>
              obtain rfl := Option.some.inj hsource
              refine ⟨reply, ?_, ?_⟩
              · rintro _ ⟨⟩
                exact hdelivers
              · rintro _ ⟨⟩
                exact hworst
          | _ => cases hsource
  | storeGet => exact ⟨.ok none, rfl, trivial⟩
  | send => exact ⟨true, rfl, trivial⟩
  | onchainPay =>
      refine ⟨⟨.ok (), ⟨.ok (), [], .ok []⟩, .ok (), .ok (), .ok none⟩, ?_, trivial⟩
      rintro _ _ ⟨⟩
  | _ => exact ⟨(Effect.nonempty_ans _).some, trivial, trivial⟩

/-! ### Every strategy fails among the worst peers -/

section Worst

variable {self : Resolver PeerId} {key : String} {h : Trace PeerId} {g : Bytes}

/-- Wrong bytes end a fetch without a result. -/
theorem finalizeL1Fetch_wrong {rely : (e : Effect PeerId) → e.Ans → Prop} {data : Bytes}
    (hwrong : lib.computeBlobId data ≠ .ok blobId) (err : Option String) :
    Meets (.under rely) h (finalizeL1Fetch lib blobId key peer data err) fun _ r => r = none := by
  obtain ⟨e, he⟩ := verifyBlobById_error hwrong
  rw [finalizeL1Fetch]
  rw [he]
  exact ⟨trivial, fun _ _ => rfl⟩

/-- A fetch from a peer of unknown behaviour comes back with the wrong bytes, and one from
a refusing peer with nothing. -/
theorem fetch_worst (peer : PeerId) {cmd : P2pCommand PeerId} (hsource : cmd.source? = some peer) :
    Meets (.under (s.Worst g)) h (fetch cmd) fun _ data =>
      (s.behaviour peer = .refusing → data = none) ∧
        (s.behaviour peer = .arbitrary → data = some g) := by
  refine meets_fetch trivial trivial (fun hlost => ?_) fun _ reply ⟨hreply, hworst⟩ => ?_
  · exact absurd hlost.1 Bool.false_ne_true
  · have hdelivers : s.Delivers peer cmd (Option.bind reply cmd.data?) := by
      cases cmd with
      | getConnectedPeers => cases hsource
      | _ => exact hreply peer hsource
    refine ⟨fun hrefuse => ?_, fun harbitrary => ?_⟩
    · rwa [Delivers, hrefuse] at hdelivers
    · cases cmd with
      | findProviders => cases hsource
      | _ => exact hworst peer hsource harbitrary

/-- A peer that is asked refuses, or it is the first that delivers. -/
theorem refusing_or_arbitrary {l : List PeerId}
    (hfirst : ∀ p, (peer :: l).find? (fun p => s.behaviour p ≠ .refusing) = some p →
      s.behaviour p = .arbitrary) :
    (s.behaviour peer = .refusing ∧ ∀ p, l.find? (fun p => s.behaviour p ≠ .refusing) = some p →
      s.behaviour p = .arbitrary) ∨ s.behaviour peer = .arbitrary := by
  by_cases hrefuse : s.behaviour peer = .refusing
  · exact .inl ⟨hrefuse, fun p hp => hfirst p (by simpa [List.find?_cons, hrefuse] using hp)⟩
  · exact .inr (hfirst peer (by simp [hrefuse]))

/-- Every strategy can be run among the worst peers. -/
theorem tame_worst (hcoin : self.CoinTypeParses lib) (key : String) :
    Tame self lib (.under (s.Worst g)) blobId key FromPeer :=
  tame_answers (fun _ _ hr => hr.1) hcoin key

variable (hcoin : self.CoinTypeParses lib)
  (hwrong : lib.computeBlobId g ≠ .ok blobId)
include hcoin hwrong

/-- Whole blobs: the first peer that delivers sends the wrong one. -/
theorem directPeersLoop_worst {l : List PeerId}
    (hfirst : ∀ p, l.find? (fun p => s.behaviour p ≠ .refusing) = some p →
      s.behaviour p = .arbitrary) :
    Meets (.under (s.Worst g)) h (self.directPeersLoop lib blobId key l) fun _ r => r = none := by
  have ht := tame_worst (s := s) (g := g) hcoin key
  induction l generalizing h with
  | nil => rfl
  | cons p rest ih =>
      refine (ht.resolvePayment_meets h p _ _).bind fun h₁ payment _ _ => ?_
      refine (fetch_worst p rfl).bind fun h₂ reply _ ⟨hnone, hsome⟩ => ?_
      rcases refusing_or_arbitrary hfirst with ⟨hrefuse, hrest⟩ | harbitrary
      · rw [hnone hrefuse]
        exact ih hrest
      · rw [hsome harbitrary]
        exact finalizeL1Fetch_wrong hwrong _

/-- Sequential ranges: the first peer that delivers sends a short wrong chunk. -/
theorem directPeersRangeLoop_worst (hshort : g.length < chunkSize) {l : List PeerId}
    (hfirst : ∀ p, l.find? (fun p => s.behaviour p ≠ .refusing) = some p →
      s.behaviour p = .arbitrary) :
    Meets (.under (s.Worst g)) h (self.directPeersRangeLoop lib blobId key l)
      fun _ r => r = none := by
  have ht := tame_worst (s := s) (g := g) hcoin key
  induction l generalizing h with
  | nil => rfl
  | cons p rest ih =>
      refine (ht.resolvePayment_meets h p _ _).bind fun h₁ payment _ _ => ?_
      refine (fetch_worst p rfl).bind fun h₂ reply _ ⟨hnone, hsome⟩ => ?_
      rcases refusing_or_arbitrary hfirst with ⟨hrefuse, hrest⟩ | harbitrary
      · rw [hnone hrefuse]
        exact ih hrest
      · rw [hsome harbitrary]
        have hlt : g.length < rangeChunk := hshort.trans (by decide)
        show Meets _ h₂ (if g.length < rangeChunk then _ else _) _
        rw [if_pos hlt]
        exact finalizeL1Fetch_wrong hwrong _

omit hcoin hwrong in
/-- Every command is sent. -/
theorem sendAll_worst {α : Type} (l : List (α × P2pCommand PeerId)) :
    Meets (.under (s.Worst g)) h (sendAll l) fun _ pending => pending = l :=
  meets_sendAll_of_sent (fun _ _ => trivial)
    (fun _ cmd sent (hsent : s.Worst g (.send cmd) sent) => hsent.1) l

omit hcoin hwrong in
/-- A pending fetch from a peer of unknown behaviour yields the wrong bytes, from a
refusing peer nothing. -/
theorem awaitNonempty_worst {α : Type} (hg : g ≠ []) (timeout : ℕ) (x : α) (peer : PeerId)
    {cmd : P2pCommand PeerId} (hsource : cmd.source? = some peer) :
    Meets (.under (s.Worst g)) h (awaitNonempty timeout (x, cmd)) fun _ r =>
      (s.behaviour peer = .refusing → r = none) ∧
        (s.behaviour peer = .arbitrary → r = some (x, g)) ∧ ∀ y, r = some y → y.1 = x := by
  refine meets_awaitNonempty trivial fun reply ⟨hreply, hworst⟩ => ?_
  have hdelivers : s.Delivers peer cmd (Option.bind reply cmd.data?) := by
    cases cmd with
    | getConnectedPeers => cases hsource
    | _ => exact hreply peer hsource
  refine ⟨fun hrefuse => ?_, fun harbitrary => ?_, fun y hy => ?_⟩
  · rw [Delivers, hrefuse] at hdelivers
    rw [hdelivers]
    rfl
  · have hdata : Option.bind reply cmd.data? = some g := by
      cases cmd with
      | findProviders => cases hsource
      | _ => exact hworst peer hsource harbitrary
    rw [hdata, Option.bind_some, if_neg hg]
  · obtain ⟨data, -, hy⟩ := Option.bind_eq_some_iff.mp hy
    split at hy
    · cases hy
    · obtain rfl := Option.some.inj hy
      rfl

omit hcoin hwrong in
/-- A window whose first chunk is short ends with that chunk. -/
theorem assemble_short (hshort : g.length < chunkSize) {later : List (ℕ × Bytes)}
    (hlater : ∀ chunk ∈ later, chunkSize ≤ chunk.1) :
    let a := assemble 0 [] false (((0, g) :: later).insertionSort fun a b => a.1 ≤ b.1)
    a.data = g ∧ a.eof = true := by
  have hsort : ∃ sorted, ((0, g) :: later).insertionSort (fun a b => a.1 ≤ b.1)
      = (0, g) :: sorted ∧ ∀ chunk ∈ sorted, chunkSize ≤ chunk.1 := by
    refine ⟨later.insertionSort fun a b => a.1 ≤ b.1, ?_, fun chunk hmem =>
      hlater chunk ((List.mem_insertionSort _).mp hmem)⟩
    rw [List.insertionSort_cons]
    cases later.insertionSort fun a b => a.1 ≤ b.1 with
    | nil => rfl
    | cons chunk rest => exact List.orderedInsert_cons_of_le _ _ (Nat.zero_le _)
  obtain ⟨sorted, hsort, hsorted⟩ := hsort
  rw [hsort]
  simp only [assemble, Nat.zero_add, List.nil_append, decide_eq_true hshort, Bool.or_true]
  rw [if_neg (show ¬ (0 : ℕ) ≠ 0 by simp)]
  rcases sorted with - | ⟨⟨offset, chunk⟩, rest⟩
  · exact ⟨rfl, rfl⟩
  · have hoffset : offset ≠ g.length := by
      have : chunkSize ≤ offset := hsorted _ List.mem_cons_self
      omega
    rw [assemble, if_pos hoffset]
    exact ⟨rfl, rfl⟩

/-- The window loop leaves with the wrong bytes that its lead sent first. -/
theorem rangeWindows_worst (hg : g ≠ []) (hshort : g.length < chunkSize) {lead : PeerId}
    (hlead : s.behaviour lead = .arbitrary) (others : List PeerId) (fuel : ℕ)
    (err : Option String) :
    Meets (.under (s.Worst g)) h
      (self.rangeWindows lib blobId key lead others (fuel + 1) 0 [] err)
      fun _ r => r = none := by
  have ht := tame_worst (s := s) (g := g) hcoin key
  refine meets_rangeWindows_succ (fun x => x.1 = 0)
    (fun x r => (x.2.source? = some lead → r = some (x.1, g)) ∧ ∀ y, r = some y → y.1 = x.1)
    (fun h' peer _ => ht.resolvePayment_meets h' peer _ _) (fun _ _ => trivial)
    (fun _ _ _ _ sent _ (hsent : s.Worst g (.send _) sent) => hsent.1)
    (fun h' peer offset proof => (awaitNonempty_worst hg 30 offset peer rfl).mono ?_)
    fun h' proofs pending responses err' hlen hsub hmust hresponses => ?_
  · rintro _ r _ ⟨-, harbitrary, hfst⟩
    refine ⟨fun hsource => harbitrary ?_, hfst⟩
    rwa [Option.some.inj hsource]
  obtain ⟨proof, proofs, rfl⟩ : ∃ proof rest, proofs = proof :: rest :=
    List.exists_cons_of_length_pos (by rw [hlen, List.length_cons]; omega)
  rw [Nat.zero_mul, Nat.zero_mul, List.zip_cons_cons, chunkRequests] at hsub hmust
  -- the lead's request is pending, and the others start later
  have hlater : ∀ x ∈ chunkRequests blobId (0 + chunkSize) (others.zip proofs), chunkSize ≤ x.1 :=
    fun x hx => by have := le_fst_of_mem_chunkRequests hx; omega
  have hfirst := hmust _ List.mem_cons_self rfl
  cases hsub with
  | cons _ hsub =>
      have hle : chunkSize ≤ 0 := hlater _ (hsub.subset hfirst)
      exact absurd hle (by decide)
  | @cons_cons pending _ _ hsub =>
      obtain ⟨r, rest, ⟨hr, -⟩, hrest, rfl⟩ := List.forall₂_cons_left_iff.mp hresponses
      obtain rfl := hr rfl
      have hoffsets : ∀ chunk ∈ rest.reduceOption, chunkSize ≤ chunk.1 := by
        intro chunk hmem
        obtain ⟨x, hx, -, hfst⟩ := exists_of_mem_reduceOption hrest hmem
        rw [hfst chunk rfl]
        exact hlater x (hsub.subset hx)
      obtain ⟨hdata, heof⟩ := assemble_short hshort hoffsets
      have hfinal : ∀ h err, Meets (.under (s.Worst g)) h
          (finalizeL1Fetch lib blobId key lead g err) fun _ r => r = none :=
        fun h err => finalizeL1Fetch_wrong hwrong err
      rw [List.reduceOption_cons_of_some, afterWindow, List.isEmpty_cons,
        if_neg Bool.false_ne_true]
      simp only [List.length_nil, hdata, heof, if_true]
      split
      · rw [finishWindows, if_neg (by simpa using hg)]
        exact hfinal _ _
      · split
        · rfl
        · exact hfinal _ _

omit hcoin hwrong in
/-- The first peer with an answer to its probe is the first that delivers. -/
theorem lead_arbitrary {probes : List (PeerId × P2pCommand PeerId)}
    {answers : List (Option (PeerId × Bytes))}
    (hanswers : List.Forall₂ (fun x r => (s.behaviour x.1 = .refusing → r = none) ∧
      (s.behaviour x.1 = .arbitrary → r = some (x.1, g))) probes answers)
    (hfirst : ∀ p, (probes.map Prod.fst).find? (fun p => s.behaviour p ≠ .refusing) = some p →
      s.behaviour p = .arbitrary) {lead : PeerId}
    (hlead : (answers.reduceOption.map Prod.fst).head? = some lead) :
    s.behaviour lead = .arbitrary := by
  induction hanswers with
  | nil => cases hlead
  | @cons x r _ _ hr _ ih =>
      rcases refusing_or_arbitrary hfirst with ⟨hrefuse, hrest⟩ | harbitrary
      · rw [hr.1 hrefuse, List.reduceOption_cons_of_none] at hlead
        exact ih hrest hlead
      · rw [hr.2 harbitrary, List.reduceOption_cons_of_some] at hlead
        obtain rfl : x.1 = lead := Option.some.inj hlead
        exact harbitrary

/-- Parallel ranges: the lead sends a short wrong chunk. -/
theorem tryDirectPeersRangeParallel_worst (hg : g ≠ []) (hshort : g.length < chunkSize)
    (hfirst : ∀ p, s.firstDelivering = some p → s.behaviour p = .arbitrary) :
    Meets (.under (s.Worst g)) h (self.tryDirectPeersRangeParallel lib blobId key)
      fun _ r => r = none := by
  have ht := tame_worst (s := s) (g := g) hcoin key
  refine (connectedPeers_answers fun _ _ hr => hr.1).bind fun h₁ connected _ hconnected => ?_
  subst hconnected
  refine Meets.ite (fun hempty => ?_) fun hnonempty => ?_
  · rfl
  refine (ht.payAll_meets (s.connected.take maxParallel) _ _).bind
    fun h₂ payments _ hpayments => ?_
  refine (sendAll_worst _).bind fun h₃ probes _ hprobes => ?_
  have hpeers : probes.map Prod.fst = s.connected.take maxParallel := by
    rw [hprobes]
    exact map_fst_probeRequests hpayments
  have hsource : ∀ x ∈ probes, x.2.source? = some x.1 := by
    intro x hx
    rw [hprobes] at hx
    obtain ⟨proof, hprobe⟩ := exists_of_mem_probeRequests hx
    rw [hprobe]
    rfl
  refine (meets_mapM_of_forall (P := fun x r => (s.behaviour x.1 = .refusing → r = none) ∧
    (s.behaviour x.1 = .arbitrary → r = some (x.1, g))) fun x hx h' => ?_).bind
      fun h₄ answers _ hanswers => ?_
  · refine (awaitNonempty_worst hg 5 x.1 x.1 (hsource x hx)).mono ?_
    rintro _ r _ ⟨hrefuse, harbitrary, -⟩
    exact ⟨hrefuse, harbitrary⟩
  have hlead : ∀ lead, (answers.reduceOption.map Prod.fst).head? = some lead →
      s.behaviour lead = .arbitrary := by
    refine fun lead => lead_arbitrary hanswers fun p hp => hfirst p ?_
    rw [hpeers] at hp
    rw [firstDelivering, ← List.take_append_drop maxParallel s.connected, List.find?_append, hp]
    rfl
  rcases hworking : answers.reduceOption.map Prod.fst with - | ⟨lead, others⟩
  · rfl
  · exact rangeWindows_worst hcoin hwrong hg hshort (hlead lead (by rw [hworking]; rfl)) others
      (windowFuel - 1) _

omit hcoin hwrong in
/-- No provider is found. -/
theorem runFindProviders_worst :
    Meets (.under (s.Worst g)) h (@runFindProviders PeerId blobId) fun _ l => l = [] := by
  refine ⟨trivial, fun sent hsent => ?_⟩
  obtain rfl : sent = true := hsent.1
  refine ⟨trivial, fun reply hreply => ?_⟩
  obtain rfl : reply = none := hreply.2
  rfl

omit hcoin hwrong in
/-- The DHT has no result. -/
theorem tryProviders_worst [DecidableEq PeerId] :
    Meets (.under (s.Worst g)) h (self.tryProviders lib blobId key) fun _ r => r = none := by
  have hretry : ∀ attempts h, Meets (.under (s.Worst g)) h
      (self.retryFindProviders blobId attempts) fun _ l => l = [] := by
    intro attempts
    induction attempts with
    | zero => exact fun _ => rfl
    | succ attempts ih =>
        refine fun h => ⟨trivial, fun _ _ => ?_⟩
        refine runFindProviders_worst.bind fun h₁ found _ hfound => ?_
        subst hfound
        exact ih h₁
  refine runFindProviders_worst.bind fun h₁ found _ hfound => ?_
  subst hfound
  refine (hretry 3 h₁).bind fun h₂ retried _ hretried => ?_
  subst hretried
  rfl

/-- **No result from a peer among the worst peers**, unless the first that delivers is a
seeder. -/
theorem resolve_worst [DecidableEq PeerId] (hg : g ≠ []) (hshort : g.length < chunkSize)
    (hfirst : ∀ p, s.firstDelivering = some p → s.behaviour p = .arbitrary) :
    Meets (.under (s.Worst g)) [] (self.resolve lib blobId)
      fun _ r => ∀ res, r = .ok res → res.resolution ≠ .l1Peer := by
  have hnext : ∀ {h : Trace PeerId} {first next : Action PeerId L1Result},
      Meets (.under (s.Worst g)) h first (fun _ r => r = none) →
      (∀ h', Meets (.under (s.Worst g)) h' next fun _ r => r = none) →
        Meets (.under (s.Worst g)) h (orElse first next) fun _ r => r = none :=
    fun hfirst hnext => meets_orElse (hfirst.mono fun h' _ _ hr =>
      ⟨fun _ => hnext h', fun hne => absurd hr hne⟩)
  have hloop : ∀ {h : Trace PeerId} {loop : List PeerId → Action PeerId L1Result},
      (∀ h', Meets (.under (s.Worst g)) h' (loop s.connected) fun _ r => r = none) →
        Meets (.under (s.Worst g)) h (connectedPeers >>= loop) fun _ r => r = none := by
    intro h loop hloop
    refine (connectedPeers_answers fun _ _ hr => hr.1).bind fun h₁ l _ hl => ?_
    rw [hl]
    exact hloop h₁
  have hwalrus : ∀ h, Meets (.under (s.Worst g)) h
      (resolveFromWalrus blobId (lib.blobIdToString blobId))
      fun _ r => ∀ res, r = .ok res → res.resolution ≠ .l1Peer := by
    refine fun h => meets_resolveFromWalrus trivial (fun data _ => ⟨trivial, ?_⟩)
      (fun _ => trivial) fun _ _ _ hres => by cases hres
    rintro h' _ ⟨⟩
    simp
  have hl1 : ∀ h, Meets (.under (s.Worst g)) h
      (self.resolveFromL1 lib blobId (lib.blobIdToString blobId)) fun _ r => r = none :=
    fun h => hnext (tryDirectPeersRangeParallel_worst hcoin hwrong hg hshort hfirst) fun _ =>
      hnext (hloop fun _ => directPeersRangeLoop_worst hcoin hwrong hshort hfirst) fun _ =>
        hnext (hloop fun _ => directPeersLoop_worst hcoin hwrong hfirst) fun _ =>
          tryProviders_worst
  refine meets_resolve trivial (fun e he => by cases he.1) (fun data hdata => by cases hdata.1)
    fun _ => ?_
  exact meets_resolveUncached (hl1 _) (fun _ _ hsome => by cases hsome) (fun h' _ => hwalrus h')
    fun _ => hwalrus _

end Worst

end Swarm

/-- **One honest seeder suffices exactly when no peer delivers before it.** Among the
connected peers is a seeder of the blob, of at most 32 MiB. Every resolve of the uncached
blob ends with a peer's copy, whatever the peers of unknown behaviour and the DHT answer,
if and only if the first connected peer that may deliver data is a seeder. -/
theorem honest_seeder_iff [DecidableEq PeerId] {self : Resolver PeerId}
    {lib : Externals PeerId} {blobId : BlobId} {blob : Bytes} (s : Swarm lib blobId blob)
    (hp2p : self.hasP2pChannel = true) (hcoin : self.CoinTypeParses lib)
    (hid : lib.computeBlobId blob = .ok blobId) (hne : 0 < blob.length)
    (hmax : blob.length ≤ 32 * 1024 * 1024)
    (hseeder : ∃ peer ∈ s.connected, s.behaviour peer = .seeding)
    (hwrong : ∃ g : Bytes, g ≠ [] ∧ g.length < chunkSize ∧ lib.computeBlobId g ≠ .ok blobId) :
    (∀ t o, (self.resolve lib blobId).Runs t o → (∀ ev ∈ t, s.Answers ev.1 ev.2) →
      ∃ res, o = some (.ok res) ∧ res.resolution = .l1Peer) ↔
    ∃ peer, s.firstDelivering = some peer ∧ s.behaviour peer = .seeding := by
  constructor
  · intro hall
    obtain ⟨seeder, hmem, hseeding⟩ := hseeder
    obtain ⟨peer, hpeer⟩ : ∃ peer, s.firstDelivering = some peer := by
      rw [← Option.isSome_iff_exists, Swarm.firstDelivering, List.find?_isSome]
      exact ⟨seeder, hmem, by simp [hseeding]⟩
    refine ⟨peer, hpeer, ?_⟩
    by_contra hnot
    -- the peer delivers and is no seeder, so it may send wrong bytes
    have harbitrary : s.behaviour peer = .arbitrary := by
      have hdelivers : s.behaviour peer ≠ .refusing := by simpa using List.find?_some hpeer
      cases hb : s.behaviour peer <;> simp_all
    obtain ⟨g, hg, hshort, hbad⟩ := hwrong
    have hworst := Swarm.resolve_worst (s := s) hcoin hbad hg hshort fun p hp => by
      obtain rfl := Option.some.inj (hpeer.symm.trans hp)
      exact harbitrary
    obtain ⟨t, r, hrun, hrely, hnone⟩ := hworst.exists_ends (s.exists_worst g)
    obtain ⟨res, hres, hl1⟩ := hall t _ hrun fun ev hev => (hrely ev hev).1
    exact hnone res (Option.some.inj hres) hl1
  · rintro ⟨peer, hfirst, hpeer⟩ t o hrun hanswers
    obtain ⟨r, rfl, res, rfl, hres⟩ :=
      (Swarm.resolve_seeding hp2p hcoin hid hne hmax hpeer hfirst).ends hrun hanswers
    exact ⟨res, rfl, hres⟩

/-! ### A peer before a seeder -/

/-- A peer and then a seeder of the byte 1. -/
def twoPeers (first : Behaviour) : Swarm sampleExternals (sampleBlobId [1]) [1] where
  connected := [0, 1]
  behaviour peer := if peer = 0 then first else .seeding
  store _ _ := .ok (some [1])
  holds _ _ := rfl

/-- What comes back from the two peers, when the first one always sends `data`. -/
def twoPeersData (data : Option Bytes) (cmd : P2pCommand ℕ) : ℕ → Option Bytes
  | 0 => data
  | _ => handlerData sampleExternals (fun _ => .ok (some [1])) 1 cmd

/-- The environment of the two peers; the rest is as in `garbageEnv`. -/
def twoPeersEnv (data : Option Bytes) (h : Trace ℕ) : (e : Effect ℕ) → e.Ans
  | .await .getConnectedPeers _ => some [0, 1]
  | .await (.fetchBlob peer id proof) _ =>
      (twoPeersData data (.fetchBlob peer id proof) peer).map .ok
  | .await (.fetchRange peer id offset length proof) _ =>
      (twoPeersData data (.fetchRange peer id offset length proof) peer).map .ok
  | .await _ _ => none
  | e => garbageEnv h e

/-- The data of a reply that is made from some data. -/
theorem bind_toOption_map_ok (d : Option Bytes) :
    (d.map (.ok : Bytes → ZingResult Bytes)).bind Except.toOption = d := by
  cases d <;> rfl

theorem twoPeersData_delivers {first : Behaviour} {data : Option Bytes}
    (hfirst : first = .arbitrary ∨ first = .refusing ∧ data = none) (cmd : P2pCommand ℕ)
    (peer : ℕ) : (twoPeers first).Delivers peer cmd (twoPeersData data cmd peer) := by
  cases peer with
  | zero => rcases hfirst with rfl | ⟨rfl, rfl⟩ <;> trivial
  | succ peer => exact ⟨1, .inr rfl, rfl⟩

theorem twoPeersEnv_answers {first : Behaviour} {data : Option Bytes}
    (hfirst : first = .arbitrary ∨ first = .refusing ∧ data = none) (h : Trace ℕ)
    (e : Effect ℕ) : (twoPeers first).Answers e (twoPeersEnv data h e) := by
  cases e with
  | await cmd timeout =>
      cases cmd with
      | getConnectedPeers => rfl
      | fetchBlob peer id proof =>
          rintro _ ⟨⟩
          exact (bind_toOption_map_ok _).symm ▸ twoPeersData_delivers hfirst _ peer
      | fetchRange peer id offset length proof =>
          rintro _ ⟨⟩
          exact (bind_toOption_map_ok _).symm ▸ twoPeersData_delivers hfirst _ peer
      | fetchSliver peer id pair axis =>
          rintro _ ⟨⟩
          cases peer with
          | zero => rcases hfirst with rfl | ⟨rfl, -⟩ <;> trivial
          | succ peer => exact ⟨1, .inr rfl, rfl⟩
      | _ => rintro _ ⟨⟩
  | onchainPay => rintro _ _ ⟨⟩
  | _ => trivial

/-- **A corrupting peer before a seeder hides it**: it sends the byte 2 for the blob of the
byte 1, and the resolve ends with Walrus's copy although the second peer seeds the blob. -/
theorem not_honest_seeder :
    (1 ∈ (twoPeers .arbitrary).connected ∧ (twoPeers .arbitrary).behaviour 1 = .seeding) ∧
    ∃ t res, (onlineResolver.resolve sampleExternals (sampleBlobId [1])).Runs t
        (some (.ok res)) ∧
      (∀ ev ∈ t, (twoPeers .arbitrary).Answers ev.1 ev.2) ∧ res.resolution = .l3Walrus := by
  refine ⟨⟨by simp [twoPeers], rfl⟩,
    (exec (twoPeersEnv (some [2])) []
      (onlineResolver.resolve sampleExternals (sampleBlobId [1]))).1,
    ⟨[1], .l3Walrus, true, none⟩, ?_, forall_exec (twoPeersEnv_answers (.inl rfl)) _ _, rfl⟩
  have hend : (exec (twoPeersEnv (some [2])) []
      (onlineResolver.resolve sampleExternals (sampleBlobId [1]))).2
        = some (.ok ⟨[1], .l3Walrus, true, none⟩) := by
    rfl
  rw [← hend]
  exact runs_exec _ _ _

theorem honest_seeder_iff_refuserFirst :
    ∃ res, (exec (twoPeersEnv none) []
      (onlineResolver.resolve sampleExternals (sampleBlobId [1]))).2 = some (.ok res) ∧
        res.resolution = .l1Peer :=
  (honest_seeder_iff (twoPeers .refusing) rfl (by rintro _ _ ⟨⟩) rfl (by decide) (by decide)
    ⟨1, by simp [twoPeers], rfl⟩ ⟨[2], by simp, by decide, by decide⟩).mpr ⟨1, rfl, rfl⟩ _ _
      (runs_exec _ _ _) (forall_exec (twoPeersEnv_answers (.inr ⟨rfl, rfl⟩)) _ _)

end ZingCdn
