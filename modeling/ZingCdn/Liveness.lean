import ZingCdn.ResolverBounds

/-!
# Resolves End, Whatever the Peers Do

No behaviour of the connected peers and of the DHT keeps a resolve from ending: the window
loop over ranges leaves after at most `maxWindows` windows, the number of commands is
bounded by the lengths of the peer lists, and a reply is awaited without a timeout only
where the local node sends it at once. The strategies over peers never fail the resolve,
so it succeeds when the store, the eviction and Walrus do.

The RPC node is relied on for one thing: a digest it returns decodes to 32 bytes. The
configured coin type is a constant of the node that parses.

## Main results

* `resolve_live`: the contract of one resolve.
* `byzantine_peers_cannot_block`: every run of a resolve, and of each of its strategies.
-/

open Program Program.Prog

namespace ZingCdn

variable {PeerId : Type}

/-- A digest in a response decodes to 32 bytes. -/
def OnchainOutcome.DigestFits (lib : Externals PeerId) (o : OnchainOutcome) : Prop :=
  ∀ digestB58 raw, o.execute = .ok (some digestB58) → lib.bs58Decode digestB58 = .ok raw →
    raw.length = 32

/-- What is relied on for an attempt to pay. -/
def digestRely (lib : Externals PeerId) : (e : Effect PeerId) → e.Ans → Prop
  | .onchainPay .., o => OnchainOutcome.DigestFits lib o
  | _, _ => True

/-- A reply is awaited with a timeout, or the node sends it at once. -/
def Effect.Timely : Effect PeerId → Prop
  | .await cmd none => cmd.answeredAtOnce
  | _ => True

/-- The configured coin type parses. -/
def Resolver.CoinTypeParses (self : Resolver PeerId) (lib : Externals PeerId) : Prop :=
  ∀ wallet settlement, self.wallet = some wallet → wallet.settlement = some settlement →
    (lib.structTagFromStr settlement.walCoinType).isSome

/-- With a coin type that parses and a digest that fits, an attempt to pay does not
panic. -/
theorem ZingWallet.tryOnchainPay_ne_none {wallet : ZingWallet} {lib : Externals PeerId}
    {settlement : SettlementConfig} {recipient : Address} {blobHash : Bytes32} {amount : ℕ}
    {o : OnchainOutcome} (hcoin : (lib.structTagFromStr settlement.walCoinType).isSome)
    (hdigest : o.DigestFits lib) :
    wallet.tryOnchainPay lib settlement recipient blobHash amount o ≠ none := by
  have htx : wallet.payTransaction lib settlement recipient blobHash amount o ≠ none := by
    obtain ⟨tag, htag⟩ := Option.isSome_iff_exists.mp hcoin
    unfold ZingWallet.payTransaction SettlementConfig.buildPayTransaction
    simp only [htag, Option.map_some]
    repeat' split
    all_goals simp_all
  rw [ZingWallet.tryOnchainPay]
  split
  · contradiction
  · simp
  · split
    · simp
    · simp
    · rename_i digestB58 hexecute
      split
      · simp
      · rename_i raw hraw
        rw [dif_pos (hdigest _ _ hexecute hraw)]
        simp

/-- The contract of a resolve for its end. -/
def liveContract (lib : Externals PeerId) : Contract (@Effect.Ans PeerId) where
  rely _ := digestRely lib
  guarantee _ := Effect.Timely
  mayPanic := False

/-- The result of a strategy is a blob from a peer. -/
def FromPeer (r : L1Result) : Prop :=
  ∀ x, r = some x → ∃ res, x = .ok res ∧ res.resolution = .l1Peer

theorem tame_live {self : Resolver PeerId} {lib : Externals PeerId}
    (hcoin : self.CoinTypeParses lib) (blobId : BlobId) (key : String) :
    Tame self lib (liveContract lib) blobId key FromPeer where
  benign h e he _ _ := by
    rcases e with _ | _ | _ | _ | _ | _ | ⟨cmd, - | timeout⟩ | _ | _ | _ | _ | _ | _ | _ | _ <;>
      trivial
  sends _ _ := trivial
  payments h e he := by
    cases e with
    | suiAddrCacheGet | onchainPay | paymentCounterFetchAdd => trivial
    | _ => cases he
  pays h recipient blobHash amount o wallet settlement hw hs ho :=
    ZingWallet.tryOnchainPay_ne_none (hcoin wallet settlement hw hs) ho
  finalize h peer data err := by
    rw [Resolver.finalizeL1Fetch]
    split
    · exact ⟨trivial, fun _ _ _ hnone => by cases hnone⟩
    · refine ⟨trivial, fun _ _ => ⟨trivial, fun _ _ => ⟨trivial, fun _ _ => ?_⟩⟩⟩
      rintro _ ⟨⟩
      exact ⟨_, rfl, rfl⟩
  nothing := by simp [FromPeer]

/-- The store, the eviction or Walrus succeeded. -/
def localOk : (e : Effect PeerId) → e.Ans → Prop
  | .storeGet _, r => ∃ data, r = .ok data
  | .storePut .., r => r = .ok ()
  | .evictionRun, r => r = .ok ()
  | .walrusRead _, r => ∃ data, r = .ok data
  | _, _ => True

/-- A resolve that meets no local failure succeeds. -/
def SucceedsLocally (t : Trace PeerId) (r : ZingResult ResolveResult) : Prop :=
  (∀ ev ∈ t, localOk ev.1 ev.2) → ∃ res, r = .ok res

/-- The fallback to Walrus sends nothing, and fails on a local failure only. -/
theorem resolveFromWalrus_live (lib : Externals PeerId) (blobId : BlobId) (key : String)
    (P : ℕ) (h : Trace PeerId) :
    Sends (liveContract lib) P h (Resolver.resolveFromWalrus blobId key) 0 SucceedsLocally := by
  refine Costs.call (m := 0) trivial (fun read _ => ?_) (le_refl _)
  cases read with
  | error e =>
      refine costs_pure fun hlocal => ?_
      obtain ⟨data, hdata⟩ := hlocal ⟨.walrusRead blobId, .error e⟩ (by simp)
      cases hdata
  | ok data =>
      refine Costs.call (m := 0) trivial (fun stored _ => ?_) (le_refl _)
      cases stored with
      | error e =>
          refine costs_pure fun hlocal => ?_
          cases hlocal ⟨.storePut key data, .error e⟩ (by simp)
      | ok u =>
          refine Costs.call (m := 0) trivial (fun evicted _ => ?_) (le_refl _)
          cases evicted with
          | error e =>
              refine costs_pure fun hlocal => ?_
              cases hlocal ⟨.evictionRun, .error e⟩ (by simp)
          | ok u => exact costs_pure fun _ => ⟨_, rfl⟩

/-- **One resolve ends**: without a panic, after a bounded number of commands, and with a
result unless something local fails. -/
theorem resolve_live [DecidableEq PeerId] {self : Resolver PeerId} {lib : Externals PeerId}
    (hcoin : self.CoinTypeParses lib) (blobId : BlobId) (P : ℕ) :
    Sends (liveContract lib) P [] (self.resolve lib blobId) (Tame.l1Commands P)
      SucceedsLocally := by
  have hwalrus : ∀ {h : Trace PeerId} {n : ℕ}, Sends (liveContract lib) P h
      (Resolver.resolveFromWalrus blobId (lib.blobIdToString blobId)) n SucceedsLocally :=
    fun {h n} => (resolveFromWalrus_live lib blobId _ P h).mono PeersBounded.of_prefix
      (fun _ => Nat.zero_le n) fun _ _ _ hr => hr
  refine Costs.call (m := Tame.l1Commands P) trivial (fun cached _ => ?_)
    (le_of_eq (Nat.zero_add _))
  rcases cached with e | - | data
  · refine costs_pure fun hlocal => ?_
    obtain ⟨data, hdata⟩ := hlocal ⟨.storeGet (lib.blobIdToString blobId), .error e⟩ (by simp)
    cases hdata
  · show Sends _ P _ (self.resolveUncached lib blobId (lib.blobIdToString blobId)) _ _
    rw [Resolver.resolveUncached]
    split
    · refine ((tame_live hcoin blobId _).resolveFromL1_bound).bind PeersBounded.of_prefix
        (m := 0) ?_ (le_refl _)
      intro h' l1 _ hpeer
      rcases l1 with - | result
      · exact hwalrus
      · obtain ⟨res, rfl, -⟩ := hpeer result rfl
        exact costs_pure fun _ => ⟨res, rfl⟩
    · exact hwalrus
  · exact costs_pure fun _ => ⟨_, rfl⟩

/-- The strategies over peers, in their order. -/
def Resolver.l1Strategies [DecidableEq PeerId] (self : Resolver PeerId)
    (lib : Externals PeerId) (blobId : BlobId) (key : String) : List (Action PeerId L1Result) :=
  [self.tryDirectPeersRangeParallel lib blobId key, self.tryDirectPeersRange lib blobId key,
    self.tryDirectPeers lib blobId key, self.tryProviders lib blobId key]

/-- Each strategy ends with no result or a blob from a peer, never with an error. -/
theorem l1Strategies_live [DecidableEq PeerId] {self : Resolver PeerId}
    {lib : Externals PeerId} (hcoin : self.CoinTypeParses lib) {blobId : BlobId} {key : String}
    {strategy : Action PeerId L1Result} (hmem : strategy ∈ self.l1Strategies lib blobId key) :
    Meets (liveContract lib) [] strategy fun _ r => FromPeer r := by
  have ht := tame_live hcoin blobId key
  simp only [Resolver.l1Strategies, List.mem_cons, List.not_mem_nil, or_false] at hmem
  rcases hmem with rfl | rfl | rfl | rfl
  · exact (ht.tryDirectPeersRangeParallel_bound (P := 0)).meets
  · exact (ht.tryDirectPeersRange_bound (P := 0)).meets
  · exact (ht.tryDirectPeers_bound (P := 0)).meets
  · exact (ht.tryProviders_bound (P := 0)).meets

/-- **Byzantine peers cannot block a resolve.** Whatever the peers and the DHT answer, a
resolve ends without a panic; it sends at most `l1Commands P` commands when no peer list
is longer than `P`; it never waits without a timeout for a reply the node does not send at
once; and it succeeds when nothing local fails. No strategy over peers returns an error,
and the window loop never needs more than `maxWindows` windows. -/
theorem byzantine_peers_cannot_block [DecidableEq PeerId] {self : Resolver PeerId}
    {lib : Externals PeerId} (hcoin : self.CoinTypeParses lib) {blobId : BlobId} :
    (∀ t o, (self.resolve lib blobId).Runs t o → (∀ ev ∈ t, digestRely lib ev.1 ev.2) →
      o ≠ none ∧ (∀ P, PeersBounded P t → cost Effect.sends t ≤ Tame.l1Commands P) ∧
        (∀ ev ∈ t, ev.1.Timely) ∧
        ((∀ ev ∈ t, localOk ev.1 ev.2) → ∃ res, o = some (.ok res))) ∧
    (∀ key, ∀ strategy ∈ self.l1Strategies lib blobId key, ∀ t o, strategy.Runs t o →
      (∀ ev ∈ t, digestRely lib ev.1 ev.2) → ∀ x, o = some (some x) → ∃ res, x = .ok res) ∧
    ∀ key lead others err fuel, 8193 ≤ fuel → ∀ t o,
      (self.rangeWindows lib blobId key lead others fuel 0 [] err).Runs t o →
        (∀ ev ∈ t, digestRely lib ev.1 ev.2) → o ≠ none := by
  refine ⟨?_, ?_, ?_⟩
  · intro t o hrun hdigest
    have hresp := respects_of_forall hdigest []
    have hresult : ∀ P, ∃ r, o = some r ∧
        (PeersBounded P t → cost Effect.sends t ≤ Tame.l1Commands P) ∧ SucceedsLocally t r := by
      intro P
      rcases (resolve_live hcoin blobId P).result hrun hresp with ⟨r, ho, hcost, hr⟩ | ⟨-, hpanic⟩
      · exact ⟨r, ho, by simpa using hcost, hr⟩
      · exact hpanic.elim
    obtain ⟨r, rfl, -, hlocal⟩ := hresult 0
    refine ⟨by simp, fun P => ?_, fun ev hev => ?_, fun hok => ?_⟩
    · obtain ⟨-, -, hcost, -⟩ := hresult P
      exact hcost
    · obtain ⟨pre, post, rfl⟩ := List.append_of_mem hev
      exact Meets.effect (resolve_live hcoin blobId 0) hrun rfl
        (respects_of_forall (fun ev' hev' => hdigest ev' (List.mem_append_left _ hev')) [])
    · obtain ⟨res, rfl⟩ := hlocal hok
      exact ⟨res, rfl⟩
  · intro key strategy hmem t o hrun hdigest x hx
    rcases (l1Strategies_live hcoin hmem).result hrun (respects_of_forall hdigest []) with
      ⟨r, ho, hpeer⟩ | ⟨-, hpanic⟩
    · obtain rfl := Option.some.inj (ho.symm.trans hx)
      obtain ⟨res, hres, -⟩ := hpeer x rfl
      exact ⟨res, hres⟩
    · exact hpanic.elim
  · intro key lead others err fuel hfuel t o hrun hdigest
    have ht := tame_live hcoin blobId key
    have hbound := ht.rangeWindows_bound (P := 0) (h := []) (fun h => ht.finalize h lead)
      ht.nothing others 0 [] err (by simpa [maxWindows] using hfuel) (by simp) (Nat.zero_le _)
    rcases Meets.result hbound hrun (respects_of_forall hdigest []) with ⟨r, rfl, -⟩ | ⟨-, hpanic⟩
    · simp
    · exact hpanic.elim

/-- A node with a P2P channel and without a wallet. -/
def onlineResolver : Resolver ℕ := ⟨none, true, none⟩

/-- An environment with one connected peer, which answers every fetch with the byte 2; no
other providers, an empty store, and Walrus serving the byte 1. -/
def garbageEnv : Trace ℕ → (e : Effect ℕ) → e.Ans
  | _, .storeGet _ => .ok none
  | _, .storePut .. => .ok ()
  | _, .evictionRun => .ok ()
  | _, .walrusRead _ => .ok [1]
  | _, .send _ => true
  | _, .await cmd _ => match cmd with
      | .getConnectedPeers => some [0]
      | .fetchBlob .. => some (.ok [2])
      | .fetchRange .. => some (.ok [2])
      | _ => none
  | _, .suiAddrCacheGet _ => none
  | _, .vaultAddrCacheContains _ => false
  | _, .onchainPay .. => ⟨.ok (), ⟨.ok (), [], .ok []⟩, .ok (), .ok (), .ok none⟩
  | _, .paymentCounterFetchAdd => (0 : ℕ)
  | _, .sleep _ => ()
  | _, .suiAddrCacheInsert .. => ()
  | _, .spawnVaultLookup _ => ()
  | _, .recordCorruption _ => ()
  | _, .recordSuccess _ => ()

theorem garbageEnv_digestRely (h : Trace ℕ) (e : Effect ℕ) :
    digestRely sampleExternals e (garbageEnv h e) := by
  cases e with
  | onchainPay => intro digestB58 raw hexecute; cases hexecute
  | _ => trivial

theorem byzantine_peers_cannot_block_garbage :
    (exec garbageEnv [] (onlineResolver.resolve sampleExternals (sampleBlobId [1]))).2 ≠ none :=
  ((byzantine_peers_cannot_block (by rintro _ _ ⟨⟩)).1 _ _ (runs_exec garbageEnv [] _)
    (forall_exec garbageEnv_digestRely [] _)).1

end ZingCdn
