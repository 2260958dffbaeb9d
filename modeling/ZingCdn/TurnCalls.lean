import ZingCdn.Announcements
import ZingCdn.Library.Within

/-!
# Where the Calls of a Turn Come From

What the loop asks of the swarm is decided by the input of the turn: a request to a peer goes
out for the command that names it, an inbound request is served in the turn that takes it, and
the records that a node puts into the DHT are its own two, at a tick or at a connection.

The interval of the timer ticks once at the start and then every hour, and each record is also
put at the first connection. `records_published` says exactly when a record is put, in every
run.

## Main results

* `NodeState.within_handle`: what a turn may call.
* `ReachableNode.admits`: the same of every turn of a run.
* `records_published`: which records a run has put, and in which turns.
-/

open Program Program.Prog

namespace ZingCdn

variable {PeerId : Type}

/-! ### What a turn may call -/

/-- The records that a node publishes about itself. -/
def NodeConfig.records (config : NodeConfig PeerId) (formats : NodeFormats PeerId) :
    List (Bytes × Bytes) :=
  (config.suiAddress.toList.map fun suiAddress =>
    (suiAddrKey formats config.localPeerId, suiAddress.toList)) ++
  config.vaultObjectId.toList.map fun vaultId =>
    (vaultKey formats config.localPeerId, vaultId.toList)

/-- The inputs on which a node publishes. -/
def NodeInput.publishes : NodeInput PeerId → Bool
  | .tick => true
  | .event (.connectionEstablished ..) => true
  | _ => false

namespace NodeState

variable (s : NodeState PeerId) (formats : NodeFormats PeerId) (config : NodeConfig PeerId)

/-- The calls that the loop may make on an input: those to the network by what they say, and
the others. -/
def Admits [DecidableEq PeerId] (input : NodeInput PeerId) : NodeCall PeerId → Prop
  | .putRecord key value => (key, value) ∈ config.records formats ∧ input.publishes = true
  | .startProviding key =>
      (∃ blobId reply, input = .command (.announceBlob blobId) reply ∧ key = blobId.toList) ∨
        input.isConnection = true ∨ input.provided? = some key
  | .getRecord key =>
      ∃ peer reply, (input = .command (.getPeerSuiAddress peer) reply ∧
          key = suiAddrKey formats peer) ∨
        (input = .command (.getPeerVault peer) reply ∧ key = vaultKey formats peer)
  | .getProviders key =>
      ∃ blobId reply, input = .command (.findProviders blobId) reply ∧ key = blobId.toList
  | .sendBlobRequest peer request =>
      request.version = 0 ∧
        ∃ reply, input = .command (.fetchBlob peer request.blobId request.paymentTxDigest) reply
  | .sendRangeRequest peer request =>
      ∃ reply, input = .command (.fetchRange peer request.blobId request.offset request.length
        request.paymentTxDigest) reply
  | .sendSliverRequest peer request =>
      ∃ reply, input = .command (.fetchSliver peer request.blobId request.sliverPairIndex
        request.axis) reply
  | .sendAddrRequest _ request =>
      ∃ reply, input = .command (.queryPeerAddress request.peerId) reply
  | .serveBlobRequest request channel =>
      input = .event (.behaviour (.data (.request request channel)))
  | .serveRangeRequest request channel =>
      input = .event (.behaviour (.range (.request request channel)))
  | .serveSliverRequest request channel =>
      input = .event (.behaviour (.sliver (.request request channel)))
  | .sendAddrResponse channel response =>
      ∃ request, input = .event (.behaviour (.addr (.request request channel))) ∧
        response = ⟨(s.peerAddresses.lookup request.peerId).getD []⟩
  | _ => True

end NodeState

section Within

variable {A : NodeCall PeerId → Prop} {s s' : NodeState PeerId}

/-- Some calls, each of which is allowed. -/
theorem within_callAll {cs : List (NodeCall PeerId)} (hcs : ∀ c ∈ cs, A c) :
    Within A (callAll cs) := by
  induction cs with
  | nil => exact within_pure ()
  | cons c rest ih =>
      refine (within_perform (hcs c List.mem_cons_self)).bind fun _ => ?_
      exact ih fun c' hc' => hcs c' (List.mem_cons_of_mem c hc')

/-- The same for calls that are made from a list. -/
theorem within_callAll_map {α : Type} {f : α → NodeCall PeerId} {l : List α}
    (hf : ∀ a, A (f a)) : Within A (callAll (l.map f)) := by
  refine within_callAll fun c hc => ?_
  obtain ⟨a, -, rfl⟩ := List.mem_map.mp hc
  exact hf a

/-- One call, and a state. -/
theorem within_callOne {c : NodeCall PeerId} (hc : A c) :
    Within A (callAll [c] >>= fun _ => pure s') :=
  (within_callAll (by simpa using hc)).bind fun _ => within_pure s'

/-- Settling a request only replies. -/
theorem within_settle (hreply : ∀ channel msg, A (.reply channel msg)) (slot : Slot)
    (id : RequestId) (msg : Message PeerId) : Within A (s.settle slot id msg) := by
  rw [NodeState.settle]
  split
  · exact (within_perform (hreply _ _)).bind fun _ => within_pure _
  · exact within_pure s

/-- A fetch event serves a request or replies to one. -/
theorem within_handleFetchEvent (hreply : ∀ channel msg, A (.reply channel msg))
    {Req Resp : Type} (slot : Slot) {serve : Req → ResponseChannel → NodeCall PeerId}
    (data : Resp → Option Bytes) {event : RequestResponseEvent PeerId Req Resp}
    (hserve : ∀ request channel, event = .request request channel → A (serve request channel)) :
    Within A (s.handleFetchEvent slot serve data event) := by
  cases event with
  | request request channel => exact within_callOne (hserve request channel rfl)
  | response id response => exact within_settle hreply slot id _
  | outboundFailure id peer error => exact within_settle hreply slot id _
  | inboundFailure | other => exact within_pure s

/-- An address event answers from the list of addresses or replies. -/
theorem within_handleAddrEvent [DecidableEq PeerId]
    (hreply : ∀ channel msg, A (.reply channel msg))
    {event : RequestResponseEvent PeerId (AddrRequest PeerId) AddrResponse}
    (hserve : ∀ request channel, event = .request request channel →
      A (.sendAddrResponse channel ⟨(s.peerAddresses.lookup request.peerId).getD []⟩)) :
    Within A (s.handleAddrEvent event) := by
  cases event with
  | request request channel => exact within_callOne (hserve request channel rfl)
  | response id response => exact within_settle hreply .addrQueries id _
  | outboundFailure id peer error => exact within_settle hreply .addrQueries id _
  | inboundFailure | other => exact within_pure s

/-- The result of a query is replied, or provided again. -/
theorem within_handleQueryResult (hreply : ∀ channel msg, A (.reply channel msg))
    (id : RequestId) (result : QueryResult PeerId)
    (hprovide : ∀ key, result = .startProviding (.ok key) → A (.startProviding key)) :
    Within A (s.handleQueryResult id result) := by
  cases result with
  | getProviders r => rcases r with _ | _ | _ <;> exact within_settle hreply .finds id _
  | getRecord r =>
      rcases r with _ | _ <;>
        exact (within_settle hreply .suiAddrQueries id _).bind fun _ =>
          within_settle hreply .vaultQueries id _
  | startProviding r =>
      rcases r with _ | key
      · exact within_pure s
      · rw [NodeState.handleQueryResult]
        split
        · dsimp only
          split
          · exact within_pure s
          · exact within_callOne (hprovide key rfl)
        · exact within_pure s
  | bootstrap | putRecord | other => exact within_pure s

/-- Dialing some addresses only dials. -/
theorem within_dialAddresses (hdial : ∀ addr, A (.dial addr)) (formats : NodeFormats PeerId)
    (peer : PeerId) (addrs : List Multiaddr) (connected : Bool) :
    Within A (NodeState.dialAddresses formats peer addrs connected) := by
  induction addrs generalizing connected with
  | nil => exact within_pure connected
  | cons addr rest ih => exact (within_perform (hdial _)).bind fun dialed => ih _

/-- Sending a request makes the call that sends it. -/
theorem within_request {slot : Slot} {send : NodeAction PeerId RequestId} {channel : Channel}
    (hsend : Within A send) : Within A (s.request slot send channel) :=
  hsend.bind fun _ => within_pure _

end Within

namespace NodeState

variable {s : NodeState PeerId} {formats : NodeFormats PeerId} {config : NodeConfig PeerId}

/-- A command makes the calls that it admits. -/
theorem within_handleCommand [DecidableEq PeerId] (cmd : P2pCommand PeerId) (reply : Channel) :
    Within (s.Admits formats config (.command cmd reply)) (s.handleCommand formats cmd reply) := by
  cases cmd with
  | findProviders blobId => exact within_request (within_perform ⟨blobId, reply, rfl, rfl⟩)
  | fetchBlob | fetchRange | fetchSliver =>
      first
      | exact within_request (within_perform ⟨rfl, reply, rfl⟩)
      | exact within_request (within_perform ⟨reply, rfl⟩)
  | getPeerSuiAddress peer =>
      exact within_request (within_perform ⟨peer, reply, .inl ⟨rfl, rfl⟩⟩)
  | getPeerVault peer =>
      exact within_request (within_perform ⟨peer, reply, .inr ⟨rfl, rfl⟩⟩)
  | queryPeerAddress target =>
      refine (within_perform trivial).bind fun (connected : List PeerId) => ?_
      rcases connected with _ | ⟨peer, rest⟩
      · exact within_callOne trivial
      · exact within_request (within_perform ⟨reply, rfl⟩)
  | dialKadPeer peer addrs =>
      refine (within_dialAddresses (fun _ => trivial) formats peer _ false).bind fun success => ?_
      exact within_callOne trivial
  | getConnectedPeers =>
      exact (within_perform trivial).bind fun (connected : List PeerId) => within_callOne trivial
  | announceBlob blobId =>
      refine (within_perform (.inl ⟨blobId, reply, rfl, rfl⟩)).bind fun _ =>
        (within_perform trivial).bind fun (connected : List PeerId) => ?_
      rcases connected with _ | ⟨peer, rest⟩ <;> exact within_pure _
  | addBootstrapPeer | bootstrap | dial | disconnect => exact within_callOne trivial

/-- The address is one of the own records. -/
theorem mem_records_suiAddr {suiAddress : Bytes32} (h : config.suiAddress = some suiAddress) :
    (suiAddrKey formats config.localPeerId, suiAddress.toList) ∈ config.records formats := by
  simp [NodeConfig.records, h]

/-- So is the vault. -/
theorem mem_records_vault {vaultId : Bytes32} (h : config.vaultObjectId = some vaultId) :
    (vaultKey formats config.localPeerId, vaultId.toList) ∈ config.records formats := by
  simp [NodeConfig.records, h]

variable {A : NodeCall PeerId → Prop}

/-- The address is published from the own records. -/
theorem within_publishSuiAddrOnce
    (hput : ∀ key value, (key, value) ∈ config.records formats → A (.putRecord key value)) :
    Within A (s.publishSuiAddrOnce formats config) := by
  rw [publishSuiAddrOnce]
  split
  · exact within_pure s
  · split
    · rename_i suiAddress hsui
      exact within_callOne (hput _ _ (mem_records_suiAddr hsui))
    · exact within_pure s

/-- So is the vault. -/
theorem within_publishVaultOnce
    (hput : ∀ key value, (key, value) ∈ config.records formats → A (.putRecord key value)) :
    Within A (s.publishVaultOnce formats config) := by
  rw [publishVaultOnce]
  split
  · exact within_pure s
  · split
    · rename_i vaultId hvault
      exact within_callOne (hput _ _ (mem_records_vault hvault))
    · exact within_pure s

/-- When a bootstrap peer connects, the node bootstraps or announces what it has stored. -/
theorem within_bootstrapConnected [DecidableEq PeerId] (hprovide : ∀ key, A (.startProviding key))
    (hboot : A .bootstrap) (hlist : A .listBlobIds) (peer : PeerId) :
    Within A (s.bootstrapConnected formats peer) := by
  rw [bootstrapConnected]
  split
  swap
  · exact within_pure s
  split
  · refine (within_perform hlist).bind fun (listed : Except String (List String)) => ?_
    rcases listed with e | ids
    · exact within_pure s
    · refine (within_callAll fun c hc => ?_).bind fun _ => within_pure s
      obtain ⟨id, -, hid⟩ := List.mem_filterMap.mp hc
      obtain ⟨blobId, -, rfl⟩ := Option.map_eq_some_iff.mp hid
      exact hprovide _
  · refine (within_perform hboot).bind fun (started : Except String RequestId) => ?_
    rcases started with e | id <;> exact within_pure _

/-- A connection puts own records, and may bootstrap or announce. -/
theorem within_handleConnectionEstablished [DecidableEq PeerId]
    (hput : ∀ key value, (key, value) ∈ config.records formats → A (.putRecord key value))
    (hprovide : ∀ key, A (.startProviding key)) (hboot : A .bootstrap) (hlist : A .listBlobIds)
    (hadd : ∀ peer addr, A (.addAddress peer addr)) (peer : PeerId) (endpoint : ConnectedPoint) :
    Within A (s.handleConnectionEstablished formats config peer endpoint) := by
  refine (within_callAll (by simpa using hadd peer _)).bind fun _ => ?_
  refine (within_publishSuiAddrOnce hput).bind fun _ => ?_
  refine (within_publishVaultOnce hput).bind fun _ => ?_
  refine (within_bootstrapConnected hprovide hboot hlist peer).bind fun _ => ?_
  exact (within_callAll_map fun _ => hprovide _).bind fun _ => within_pure _

/-- A tick puts own records. -/
theorem within_republish
    (hput : ∀ key value, (key, value) ∈ config.records formats → A (.putRecord key value)) :
    Within A (s.republish formats config) := by
  rw [republish]
  rcases hsui : config.suiAddress with _ | suiAddress <;>
    rcases hvault : config.vaultObjectId with _ | vaultId
  · exact within_pure s
  · exact within_callOne (hput _ _ (mem_records_vault hvault))
  · exact within_callOne (hput _ _ (mem_records_suiAddr hsui))
  · refine (within_callAll ?_).bind fun _ => within_callOne (hput _ _ (mem_records_vault hvault))
    simpa using hput _ _ (mem_records_suiAddr hsui)

/-- **What a turn may call.** -/
theorem within_handle [DecidableEq PeerId] (input : NodeInput PeerId) :
    Within (s.Admits formats config input) (s.handle formats config input) := by
  rcases input with ⟨cmd, reply⟩ | event | _
  · exact within_handleCommand cmd reply
  · rcases event with event | ⟨peer, endpoint⟩ | _
    · rcases event with event | event | event | event | event | ⟨peer, addrs⟩ | _ | _
      · rcases event with ⟨peer, addrs⟩ | ⟨id, result⟩ | _
        · rw [handle, handleSwarmEvent, handleBehaviourEvent, handleKadEvent]
          split <;> exact within_pure _
        · refine within_handleQueryResult (fun _ _ => trivial) id result ?_
          rintro key rfl
          exact .inr (.inr rfl)
        · exact within_pure s
      · exact within_handleFetchEvent (fun _ _ => trivial) _ _ (by rintro _ _ rfl; rfl)
      · exact within_handleFetchEvent (fun _ _ => trivial) _ _ (by rintro _ _ rfl; rfl)
      · exact within_handleFetchEvent (fun _ _ => trivial) _ _ (by rintro _ _ rfl; rfl)
      · exact within_handleAddrEvent (fun _ _ => trivial)
          (by rintro request _ rfl; exact ⟨request, rfl, rfl⟩)
      · rw [handle, handleSwarmEvent, handleBehaviourEvent]
        split
        · exact within_pure s
        · exact (within_callAll_map fun _ => trivial).bind fun _ => within_pure _
      · exact within_pure s
      · exact within_pure s
    · exact within_handleConnectionEstablished (fun _ _ h => ⟨h, rfl⟩) (fun _ => .inr (.inl rfl))
        trivial trivial (fun _ _ => trivial) peer endpoint
    · exact within_pure s
  · exact within_republish fun _ _ h => ⟨h, rfl⟩

end NodeState

/-- **Where the calls of a run come from.** -/
theorem ReachableNode.admits [DecidableEq PeerId] {formats : NodeFormats PeerId}
    {config : NodeConfig PeerId} {run : NodeRun PeerId} (hrun : ReachableNode formats config run)
    {turn : Turn PeerId} (hturn : turn ∈ run.turns) :
    ∃ s before, ReachableNode formats config ⟨s, before⟩ ∧
      (∃ after, run.turns = before ++ turn :: after) ∧
      ∀ ev ∈ turn.calls, s.Admits formats config turn.input ev.1 := by
  obtain ⟨before, after, hsplit⟩ := List.append_of_mem hturn
  obtain ⟨s, s', hbefore, hturn⟩ := hrun.split hsplit
  exact ⟨s, before, hbefore, ⟨after, hsplit⟩,
    (NodeState.within_handle turn.input).of_runs hturn⟩

/-! ### The records a node publishes -/

/-- The record that a call puts. -/
def NodeCall.put? : NodeCall PeerId → Option (Bytes × Bytes)
  | .putRecord key value => some (key, value)
  | _ => none

/-- The records that some calls put. -/
def published (calls : NodeCalls PeerId) : List (Bytes × Bytes) :=
  calls.filterMap fun ev => ev.1.put?

/-- What two lists of calls publish. -/
@[simp] theorem published_append (calls calls' : NodeCalls PeerId) :
    published (calls ++ calls') = published calls ++ published calls' := List.filterMap_append

/-- What is published depends on the calls alone, not on their answers. -/
theorem published_eq {calls : NodeCalls PeerId} :
    published calls = (made calls).filterMap NodeCall.put? := by
  rw [made, List.filterMap_map]
  rfl

/-- A program that puts no record. -/
theorem published_eq_nil {α : Type} {p : NodeAction PeerId α}
    (hp : Within (fun c => c.put? = none) p) {calls : NodeCalls PeerId} {o : Option α}
    (hrun : p.Runs calls o) : published calls = [] :=
  List.filterMap_eq_nil_iff.mpr (hp.of_runs hrun)

namespace NodeState

/-- Whether the records have been published. -/
def publishedFlags (s : NodeState PeerId) : Bool × Bool := (s.suiAddrPublished, s.vaultPublished)

/-- The flags show no pending reply. -/
theorem hides_publishedFlags : Hides (@publishedFlags PeerId) :=
  ⟨fun _ _ _ => rfl, fun _ _ => rfl⟩

/-- The view shows neither the pending replies nor the queued announcements. -/
structure HidesRequests {V : Type} (view : NodeState PeerId → V) : Prop where
  insert : ∀ s slot id channel, view (s.insert slot id channel) = view s
  queue : ∀ s queue, view { s with pendingAnnounces := queue } = view s

variable {s s' : NodeState PeerId} {formats : NodeFormats PeerId} {config : NodeConfig PeerId}
  {calls : NodeCalls PeerId}

/-- A command keeps such a view. -/
theorem frames_handleCommand [DecidableEq PeerId] {V : Type} {view : NodeState PeerId → V}
    (hview : HidesRequests view) (cmd : P2pCommand PeerId) (reply : Channel) :
    Frames view s (s.handleCommand formats cmd reply) := by
  intro h
  cases cmd with
  | announceBlob blobId =>
      refine ⟨trivial, fun started _ => ⟨trivial, fun connected _ => ?_⟩⟩
      rcases connected with _ | ⟨peer, rest⟩
      · exact hview.queue s _
      · rfl
  | dialKadPeer peer addrs =>
      refine (meets_dialAddresses formats peer _ false).bind fun _ success _ _ => ?_
      exact frames_callAll [.reply reply (.dialed success)] rfl _
  | queryPeerAddress target =>
      refine ⟨trivial, fun connected _ => ?_⟩
      rcases connected with _ | ⟨peer, rest⟩
      · exact frames_callAll [.reply reply (.addresses [])] rfl _
      · exact ⟨trivial, fun id _ => hview.insert s .addrQueries id reply⟩
  | getConnectedPeers => exact ⟨trivial, fun _ _ => ⟨trivial, fun _ _ => rfl⟩⟩
  | addBootstrapPeer | bootstrap | dial | disconnect => exact ⟨trivial, fun _ _ => rfl⟩
  | _ => exact ⟨trivial, fun id _ => hview.insert s _ id reply⟩

/-- Nor a request. -/
theorem hidesRequests_publishedFlags : HidesRequests (@publishedFlags PeerId) :=
  ⟨fun _ _ _ _ => rfl, fun _ _ => rfl⟩

/-- A record that is put the first time. -/
theorem publishOnce_runs {flag : Bool} {value : Option Bytes32} {key : Bytes}
    {marked : NodeState PeerId}
    (hrun : (if flag then pure s
      else match value with
        | some v => do
            callAll [.putRecord key v.toList]
            pure marked
        | none => pure s : NodeAction PeerId (NodeState PeerId)).Runs calls (some s')) :
    published calls = (if flag then [] else value.toList.map fun v => (key, v.toList)) ∧
      s' = if !flag && value.isSome then marked else s := by
  cases flag with
  | true =>
      obtain ⟨rfl, hs⟩ := runs_ret_iff.mp hrun
      exact ⟨rfl, Option.some.inj hs⟩
  | false =>
      cases value with
      | none =>
          obtain ⟨rfl, hs⟩ := runs_ret_iff.mp hrun
          exact ⟨rfl, Option.some.inj hs⟩
      | some v =>
          obtain ⟨_, _, rfl, hrest⟩ := runs_call_iff.mp hrun
          obtain ⟨rfl, hs⟩ := runs_ret_iff.mp hrest
          exact ⟨rfl, Option.some.inj hs⟩

variable (s config) in
/-- The records that are not published yet. -/
def unpublished (formats : NodeFormats PeerId) : List (Bytes × Bytes) :=
  (if s.suiAddrPublished then [] else config.suiAddress.toList.map fun suiAddress =>
    (suiAddrKey formats config.localPeerId, suiAddress.toList)) ++
  if s.vaultPublished then [] else config.vaultObjectId.toList.map fun vaultId =>
    (vaultKey formats config.localPeerId, vaultId.toList)

/-- The bootstrap of a connection keeps the flags. -/
theorem frames_flags_bootstrapConnected [DecidableEq PeerId] (peer : PeerId) :
    Frames publishedFlags s (s.bootstrapConnected formats peer) := by
  intro h
  rw [bootstrapConnected]
  split
  · split
    · refine ⟨trivial, fun listed _ => ?_⟩
      rcases listed with e | ids
      · rfl
      · exact frames_callAll _ rfl _
    · refine ⟨trivial, fun started _ => ?_⟩
      rcases started with e | id <;> rfl
  · rfl

/-- **A connection** puts the records that are not published yet. -/
theorem published_connection [DecidableEq PeerId] {peer : PeerId} {endpoint : ConnectedPoint}
    (hrun : (s.handleConnectionEstablished formats config peer endpoint).Runs calls (some s')) :
    published calls = s.unpublished config formats ∧
      s'.publishedFlags = (s.suiAddrPublished || config.suiAddress.isSome,
        s.vaultPublished || config.vaultObjectId.isSome) := by
  obtain ⟨added, _, _, rfl, hadded, hrun⟩ := Runs.of_bind hrun
  obtain ⟨sui, s₁, _, rfl, hsui, hrun⟩ := Runs.of_bind hrun
  obtain ⟨vault, s₂, rest, rfl, hvault, hrun⟩ := Runs.of_bind hrun
  obtain ⟨hsui, hs₁⟩ := publishOnce_runs hsui
  obtain ⟨hvault, hs₂⟩ := publishOnce_runs hvault
  have hadded : published added = [] :=
    published_eq_nil (within_callAll (by simp [NodeCall.put?])) hadded
  -- the rest of the turn is about the bootstrap and the announcements
  have hwithin : Within (fun c : NodeCall PeerId => c.put? = none)
      (s₂.bootstrapConnected formats peer >>= fun s => s.flushAnnounces) := by
    refine (within_bootstrapConnected (A := fun c => c.put? = none) (fun _ => rfl) rfl rfl
      peer).bind fun s₃ => ?_
    refine Within.bind ?_ fun _ => within_pure _
    exact within_callAll_map (A := fun c => c.put? = none) fun _ => rfl
  have hframe : Frames publishedFlags s₂
      (s₂.bootstrapConnected formats peer >>= fun s => s.flushAnnounces) :=
    (frames_flags_bootstrapConnected peer).bind fun _ => frames_callAll _ rfl
  obtain ⟨_, heq, hflags⟩ := (hframe []).ends hrun fun _ _ => trivial
  obtain rfl := Option.some.inj heq
  have hvaultFlag : s₁.vaultPublished = s.vaultPublished := by
    rw [hs₁]
    split <;> rfl
  have hsuiFlag : s₁.suiAddrPublished = (s.suiAddrPublished || config.suiAddress.isSome) := by
    rw [hs₁]
    split
    · rename_i hnew
      rw [(Bool.and_eq_true_iff.mp hnew).2, Bool.or_true]
    · rename_i hold
      cases hflag : s.suiAddrPublished <;> cases hsome : config.suiAddress.isSome <;>
        simp_all
  have hflags₂ : s₂.publishedFlags
      = (s₁.suiAddrPublished, s₁.vaultPublished || config.vaultObjectId.isSome) := by
    rw [hs₂]
    split
    · rename_i hnew
      rw [(Bool.and_eq_true_iff.mp hnew).2, Bool.or_true]
      rfl
    · rename_i hold
      cases hflag : s₁.vaultPublished <;> cases hsome : config.vaultObjectId.isSome <;>
        simp_all [publishedFlags]
  refine ⟨?_, ?_⟩
  · rw [published_append, published_append, published_append, hadded, hsui, hvault,
      published_eq_nil hwithin hrun, hvaultFlag, List.append_nil, List.nil_append]
    rfl
  · rw [hflags, hflags₂, hsuiFlag, hvaultFlag]

/-- **A tick** puts both records. -/
theorem published_republish (hrun : (s.republish formats config).Runs calls (some s')) :
    published calls = config.records formats ∧ s' = s := by
  have hcalls : s.republish formats config
      = (callAll ((config.records formats).map fun record => .putRecord record.1 record.2) >>=
        fun _ => pure s) := by
    obtain ⟨localPeerId, listenAddr, bootstrapAddrs, externalAddrs, suiAddress, vaultId⟩ := config
    cases suiAddress <;> cases vaultId <;> rfl
  rw [hcalls] at hrun
  obtain ⟨made, _, rest, rfl, hmade, hrun⟩ := Runs.of_bind hrun
  obtain ⟨rfl, hs⟩ := runs_ret_iff.mp hrun
  obtain ⟨_, -, _, rfl, hmade⟩ := (meets_callAll (h := []) _).ends hmade fun _ _ => trivial
  refine ⟨?_, Option.some.inj hs⟩
  rw [List.append_nil, published_eq, hmade, List.filterMap_map]
  exact List.filterMap_some

/-- An event of the behaviours keeps the flags. -/
theorem frames_flags_behaviour [DecidableEq PeerId] (event : BehaviourEvent PeerId) :
    Frames publishedFlags s (s.handleBehaviourEvent event) := by
  by_cases hevent : ∃ id key,
      event = .kad (.outboundQueryProgressed id (.startProviding (.ok key)))
  · obtain ⟨id, key, rfl⟩ := hevent
    rw [handleBehaviourEvent, handleKadEvent, handleQueryResult]
    split
    · dsimp only
      split
      · exact frames_pure rfl
      · exact frames_callAll _ rfl
    · exact frames_pure rfl
  · exact frames_handleBehaviourEvent hides_publishedFlags fun id key heq => hevent ⟨id, key, heq⟩

end NodeState

/-- A turn publishes: a tick, or the first connection. -/
def Turn.publishes (before : List (Turn PeerId)) (turn : Turn PeerId) : Bool :=
  match turn.input with
  | .tick => true
  | .event (.connectionEstablished ..) => before.all fun turn => !turn.input.isConnection
  | _ => false

section Runs

open NodeState

variable [DecidableEq PeerId] {formats : NodeFormats PeerId} {config : NodeConfig PeerId}
  {run : NodeRun PeerId}

/-- What the flags say about the past turns. -/
def Flagged (config : NodeConfig PeerId) (run : NodeRun PeerId) : Prop :=
  let connected := run.turns.any fun turn => turn.input.isConnection
  run.state.publishedFlags
    = (connected && config.suiAddress.isSome, connected && config.vaultObjectId.isSome)

/-- A turn on anything but a connection or a tick. -/
theorem quiet_turn {s s' : NodeState PeerId} {input : NodeInput PeerId}
    {calls : NodeCalls PeerId} (hinput : input.publishes = false)
    (hrun : (s.handle formats config input).Runs calls (some s')) :
    published calls = [] ∧ s'.publishedFlags = s.publishedFlags := by
  constructor
  · refine List.filterMap_eq_nil_iff.mpr fun ev hev => ?_
    have hadmits := (NodeState.within_handle input).of_runs hrun ev hev
    rcases ev with ⟨c, r⟩
    cases c with
    | putRecord key value => exact absurd (hinput.symm.trans hadmits.2) Bool.false_ne_true
    | _ => rfl
  · have hframe : Frames publishedFlags s (s.handle formats config input) := by
      rcases input with ⟨cmd, reply⟩ | event | _
      · exact frames_handleCommand hidesRequests_publishedFlags cmd reply
      · rcases event with event | _ | _
        · exact frames_flags_behaviour event
        · cases hinput
        · exact frames_pure rfl
      · cases hinput
    obtain ⟨_, heq, hflags⟩ := (hframe []).ends hrun fun _ _ => trivial
    obtain rfl := Option.some.inj heq
    exact hflags

/-- **One turn**, and what the flags say after it. -/
theorem Flagged.snoc {s s' : NodeState PeerId} {turns : List (Turn PeerId)} {turn : Turn PeerId}
    (hflags : Flagged config ⟨s, turns⟩)
    (hrun : (s.handle formats config turn.input).Runs turn.calls (some s')) :
    published turn.calls = (if turn.publishes turns then config.records formats else []) ∧
      Flagged config ⟨s', turns ++ [turn]⟩ := by
  obtain ⟨input, calls⟩ := turn
  have hflags : s.publishedFlags = _ := hflags
  rw [Flagged, List.any_append, List.any_cons, List.any_nil, Bool.or_false]
  by_cases hinput : input.publishes = true
  · rcases input with ⟨cmd, reply⟩ | event | _
    · cases hinput
    · rcases event with _ | ⟨peer, endpoint⟩ | _
      · cases hinput
      · obtain ⟨hpublished, hafter⟩ := published_connection hrun
        obtain ⟨hsui, hvault⟩ := Prod.mk.inj hflags
        have hnone : (turns.all fun turn => !turn.input.isConnection)
            = !turns.any fun turn => turn.input.isConnection := by
          rw [List.not_any_eq_all_not]
        rw [hpublished, Turn.publishes, hnone, unpublished, hafter, hsui, hvault]
        cases turns.any fun turn => turn.input.isConnection with
        | true =>
            cases config.suiAddress <;> cases config.vaultObjectId <;> exact ⟨rfl, rfl⟩
        | false => exact ⟨rfl, by simp [NodeInput.isConnection]⟩
      · cases hinput
    · obtain ⟨hpublished, rfl⟩ := published_republish hrun
      exact ⟨hpublished, by simpa [NodeInput.isConnection] using hflags⟩
  · obtain ⟨hnone, hsame⟩ := quiet_turn (Bool.eq_false_iff.mpr hinput) hrun
    have hconn : input.isConnection = false := by
      rcases input with _ | event | _
      · rfl
      · rcases event with _ | _ | _
        · rfl
        · exact absurd rfl hinput
        · rfl
      · rfl
    have hquiet : Turn.publishes turns ⟨input, calls⟩ = false := by
      rcases input with _ | event | _
      · rfl
      · rcases event with _ | _ | _
        · rfl
        · exact absurd rfl hinput
        · rfl
      · exact absurd rfl hinput
    rw [hnone, hquiet, hconn, Bool.or_false]
    exact ⟨rfl, hsame.trans hflags⟩

/-- In every run the flags say whether there was a connection. -/
theorem flagged_of_reachable (hrun : ReachableNode formats config run) : Flagged config run := by
  refine Transition.Reachable.invariant (Flagged config) ?_ ?_ hrun
  · rintro run ⟨hturns, calls, hstart⟩
    rw [Flagged, hturns, startup_eq hstart]
    rfl
  · rintro _ _ hflags ⟨hturn⟩
    exact (hflags.snoc hturn).2

/-- **When a node publishes itself**: a run puts exactly its own records, all of them in the
turn of its first connection and in every tick of the timer, and none in any other turn. -/
theorem records_published (hrun : ReachableNode formats config run)
    {before after : List (Turn PeerId)} {turn : Turn PeerId}
    (hturns : run.turns = before ++ turn :: after) :
    published turn.calls = if turn.publishes before then config.records formats else [] := by
  obtain ⟨s, s', hbefore, hturn⟩ := hrun.split hturns
  exact ((flagged_of_reachable hbefore).snoc hturn).1

end Runs

section Meetings

/-- A node with a Sui address and no vault. -/
def addressedConfig : NodeConfig ℕ :=
  ⟨0, "/ip4", [], [], some (List.Vector.replicate 32 5), none⟩

/-- Its record. -/
def addressRecord : Event (@NodeCall.Ans ℕ) :=
  ⟨.putRecord (suiAddrKey restartFormats 0) (List.replicate 32 5),
    (.ok 7 : Except String RequestId)⟩

/-- The first tick. -/
def tickTurn : Turn ℕ := ⟨.tick, [addressRecord]⟩

/-- The first connection. -/
def meetTurn : Turn ℕ :=
  ⟨.event (.connectionEstablished 2 (.dialer "/ip4/2")),
    [⟨.addAddress 2 "/ip4/2", ()⟩, addressRecord]⟩

/-- The second. -/
def meetAgainTurn : Turn ℕ :=
  ⟨.event (.connectionEstablished 3 (.listener "/ip4/3")), [⟨.addAddress 3 "/ip4/3", ()⟩]⟩

/-- The first connection publishes the address, the second does not. -/
theorem records_published_meetings :
    published meetTurn.calls = [(suiAddrKey restartFormats 0, List.replicate 32 5)] ∧
      published meetAgainTurn.calls = [] := by
  have hstart : ReachableNode restartFormats addressedConfig ⟨.initial addressedConfig, []⟩ :=
    Transition.Reachable.of_init ⟨rfl, [⟨.listenOn "/ip4", (.ok () : Except String Unit)⟩],
      .call _ (.ret _)⟩
  have htick : ReachableNode restartFormats addressedConfig ⟨_, [tickTurn]⟩ :=
    hstart.snoc (.turn (.call _ (.ret _)))
  have hmeet : ReachableNode restartFormats addressedConfig ⟨_, [tickTurn, meetTurn]⟩ :=
    htick.snoc (.turn (.call _ (.call _ (.ret _))))
  have hagain : ReachableNode restartFormats addressedConfig
      ⟨_, [tickTurn, meetTurn, meetAgainTurn]⟩ := hmeet.snoc (.turn (.call _ (.ret _)))
  obtain ⟨run, hrun, hturns⟩ : ∃ run, ReachableNode restartFormats addressedConfig run ∧
      run.turns = [tickTurn, meetTurn, meetAgainTurn] := ⟨_, hagain, rfl⟩
  have hfirst : run.turns = [tickTurn] ++ meetTurn :: [meetAgainTurn] := hturns
  have hsecond : run.turns = [tickTurn, meetTurn] ++ meetAgainTurn :: [] := hturns
  exact ⟨records_published hrun hfirst, records_published hrun hsecond⟩

end Meetings

end ZingCdn
