import ZingCdn.BlobStore
import ZingCdn.PendingReplies

/-!
# Announcing Stored Blobs Again

A node's provider records are in memory only, its own as well as those it sent to its peers,
while its blobs outlive it on disk. The design has a node announce what it caches, and on a
connection to a bootstrap peer the loop lists the store and announces every blob in it, but
only once an earlier such connection has started the bootstrap query. The connection that
starts it announces nothing from the store, and a peer that a command added at runtime is
not a bootstrap peer for the loop at all.

What a turn of the loop does about announcements is stated once for every kind of input. A
connection is described by its calls (`Connects`); every other input leaves the variables
concerned as they are, except that a queued announcement has been called already.

## Main results

* `NodeState.meets_handleConnectionEstablished`: the calls of a connection.
* `announced_of_reachable`: what the variables of the loop say about its past turns.
* `cached_blobs_announced_iff`: when all stored blobs are announced after a connection.
* `not_cached_blobs_announced`: a restart with a stored blob.
-/

open Program Program.Prog

namespace ZingCdn

variable {PeerId : Type}

/-! ### What was announced -/

/-- The calls that were made, without their answers. -/
def made (calls : NodeCalls PeerId) : List (NodeCall PeerId) := calls.map Sigma.fst

/-- What two lists of calls make. -/
@[simp] theorem made_append (calls calls' : NodeCalls PeerId) :
    made (calls ++ calls') = made calls ++ made calls' := List.map_append

/-- `start_providing` was called for the blob. -/
def Provided (turns : List (Turn PeerId)) (blobId : Bytes32) : Prop :=
  ∃ turn ∈ turns, .startProviding blobId.toList ∈ made turn.calls

/-- A connection that started the bootstrap query. -/
def Turn.Bootstraps (turn : Turn PeerId) : Prop :=
  (∃ peer endpoint, turn.input = .event (.connectionEstablished peer endpoint)) ∧
    ∃ id : RequestId, ⟨.bootstrap, (.ok id : Except String RequestId)⟩ ∈ turn.calls

/-- The announcements of the blobs of some keys. -/
def announcements (formats : NodeFormats PeerId) (ids : List String) : List (NodeCall PeerId) :=
  ids.filterMap fun id =>
    (formats.parseBlobId id).toOption.map fun blobId => .startProviding blobId.bytes.toList

/-- The announcements are those of the keys that are blob ids. -/
theorem mem_announcements_iff {formats : NodeFormats PeerId} {ids : List String}
    {blobId : Bytes32} : .startProviding blobId.toList ∈ announcements formats ids ↔
      ∃ id ∈ ids, formats.parseBlobId id = .ok ⟨blobId⟩ := by
  rw [announcements, List.mem_filterMap]
  refine exists_congr fun id => and_congr_right fun _ => ?_
  rcases formats.parseBlobId id with e | parsed
  · simp [Except.toOption]
  · constructor
    · intro h
      obtain ⟨_, hparsed, hcall⟩ := Option.map_eq_some_iff.mp h
      obtain rfl := Option.some.inj hparsed
      cases parsed
      have hbytes := List.Vector.eq _ _ (NodeCall.startProviding.inj hcall)
      exact congrArg (fun bytes => Except.ok (BlobId.mk bytes)) hbytes
    · intro h
      obtain rfl := Except.ok.inj h
      rfl

/-! ### Inputs other than connections -/

/-- A list of calls is made in order. -/
theorem meets_callAll {h : NodeCalls PeerId} (cs : List (NodeCall PeerId)) :
    Meets (.under fun _ _ => True) h (callAll cs)
      fun h' _ => ∃ calls, h' = h ++ calls ∧ made calls = cs := by
  induction cs generalizing h with
  | nil => exact ⟨[], (List.append_nil h).symm, rfl⟩
  | cons c rest ih =>
      refine ⟨trivial, fun r _ => ih.mono ?_⟩
      rintro h' _ - ⟨calls, rfl, hmade⟩
      exact ⟨⟨c, r⟩ :: calls, by simp, congrArg (c :: ·) hmade⟩

namespace NodeState

/-- The variables that decide about announcements. -/
def announcing (s : NodeState PeerId) : List PeerId × Bool × List Bytes32 :=
  (s.bootstrapPeers, s.bootstrapDone, s.pendingAnnounces)

/-- Under any answers to its calls, the program leaves these variables as they are. -/
def Keeps (s : NodeState PeerId) (p : NodeAction PeerId (NodeState PeerId)) : Prop :=
  ∀ h, Meets (.under fun _ _ => True) h p fun _ s' => s'.announcing = s.announcing

/-- Under any answers to its calls, the program leaves what a view shows as it is. -/
def Frames {V : Type} (view : NodeState PeerId → V) (s : NodeState PeerId)
    (p : NodeAction PeerId (NodeState PeerId)) : Prop :=
  ∀ h, Meets (.under fun _ _ => True) h p fun _ s' => view s' = view s

/-- The view shows neither the pending replies nor the addresses of the peers. -/
structure Hides {V : Type} (view : NodeState PeerId → V) : Prop where
  remove : ∀ s slot id, view (s.remove slot id) = view s
  addresses : ∀ s addrs, view { s with peerAddresses := addrs } = view s

/-- The variables that decide about announcements show no pending reply. -/
theorem hides_announcing : Hides (@announcing PeerId) := ⟨fun _ _ _ => rfl, fun _ _ => rfl⟩

/-- Nor does the list of the retries. -/
theorem hides_announceRetried : Hides (@announceRetried PeerId) :=
  ⟨fun _ _ _ => rfl, fun _ _ => rfl⟩

section Frames

variable {V : Type} {view : NodeState PeerId → V} {s : NodeState PeerId}

/-- A state that shows the same. -/
theorem frames_pure {s' : NodeState PeerId} (hs : view s' = view s) : Frames view s (pure s') :=
  fun _ => hs

/-- Two programs, one after the other. -/
theorem Frames.bind {p : NodeAction PeerId (NodeState PeerId)}
    {f : NodeState PeerId → NodeAction PeerId (NodeState PeerId)} (hp : Frames view s p)
    (hf : ∀ s' : NodeState PeerId, Frames view s' (f s')) : Frames view s (p >>= f) := by
  refine fun h => (hp h).bind fun h₁ s₁ _ hs => ?_
  exact (hf s₁ h₁).mono fun _ _ _ hs' => hs'.trans hs

/-- Calls before a program. -/
theorem Frames.callAll_bind {p : NodeAction PeerId (NodeState PeerId)} (hp : Frames view s p)
    (cs : List (NodeCall PeerId)) : Frames view s (callAll cs >>= fun _ => p) :=
  fun _ => (meets_callAll cs).bind fun h' _ _ _ => hp h'

/-- Calls before a state that shows the same. -/
theorem frames_callAll (cs : List (NodeCall PeerId)) {s' : NodeState PeerId}
    (hs : view s' = view s) : Frames view s (callAll cs >>= fun _ => pure s') :=
  (frames_pure hs).callAll_bind cs

/-- Settling a request removes a pending reply. -/
theorem frames_settle (hview : Hides view) (slot : Slot) (id : RequestId)
    (msg : Message PeerId) : Frames view s (s.settle slot id msg) := by
  intro h
  rw [settle]
  split
  · exact ⟨trivial, fun _ _ => hview.remove s slot id⟩
  · rfl

/-- A fetch event settles a request, if anything. -/
theorem frames_handleFetchEvent (hview : Hides view) {Req Resp : Type} (slot : Slot)
    (serve : Req → ResponseChannel → NodeCall PeerId) (data : Resp → Option Bytes)
    (event : RequestResponseEvent PeerId Req Resp) :
    Frames view s (s.handleFetchEvent slot serve data event) := by
  cases event with
  | request request channel => exact frames_callAll [serve request channel] rfl
  | response id response => exact frames_settle hview slot id _
  | outboundFailure id peer error => exact frames_settle hview slot id _
  | inboundFailure | other => exact frames_pure rfl

/-- An address event settles one, or updates the addresses. -/
theorem frames_handleAddrEvent [DecidableEq PeerId] (hview : Hides view)
    (event : RequestResponseEvent PeerId (AddrRequest PeerId) AddrResponse) :
    Frames view s (s.handleAddrEvent event) := by
  cases event with
  | request request channel => exact frames_callAll [.sendAddrResponse channel _] rfl
  | response id response => exact frames_settle hview .addrQueries id _
  | outboundFailure id peer error => exact frames_settle hview .addrQueries id _
  | inboundFailure | other => exact frames_pure rfl

/-- Only an announcement that succeeded touches anything else. -/
theorem frames_handleQueryResult (hview : Hides view) (id : RequestId)
    {result : QueryResult PeerId} (hresult : ∀ key, result ≠ .startProviding (.ok key)) :
    Frames view s (s.handleQueryResult id result) := by
  cases result with
  | getProviders r =>
      rcases r with _ | _ | _ <;> exact frames_settle hview .finds id _
  | getRecord r =>
      rcases r with _ | _ <;>
        exact (frames_settle hview .suiAddrQueries id _).bind fun _ =>
          frames_settle hview .vaultQueries id _
  | startProviding r =>
      rcases r with _ | key
      · exact frames_pure rfl
      · exact absurd rfl (hresult key)
  | bootstrap | putRecord | other => exact frames_pure rfl

/-- So does every other event, but for the end of an announcement. -/
theorem frames_handleBehaviourEvent [DecidableEq PeerId] (hview : Hides view)
    {event : BehaviourEvent PeerId}
    (hevent : ∀ id key, event ≠ .kad (.outboundQueryProgressed id (.startProviding (.ok key)))) :
    Frames view s (s.handleBehaviourEvent event) := by
  cases event with
  | kad event =>
      cases event with
      | routingUpdated peer addresses =>
          rw [handleBehaviourEvent, handleKadEvent]
          split
          · exact frames_pure rfl
          · exact frames_pure (hview.addresses s _)
      | outboundQueryProgressed id result =>
          exact frames_handleQueryResult hview id fun key heq => hevent id key (heq ▸ rfl)
      | other => exact frames_pure rfl
  | data event => exact frames_handleFetchEvent hview .fetches _ _ event
  | range event => exact frames_handleFetchEvent hview .rangeFetches _ _ event
  | sliver event => exact frames_handleFetchEvent hview .sliverFetches _ _ event
  | addr event => exact frames_handleAddrEvent hview event
  | identifyReceived peer listenAddrs =>
      rw [handleBehaviourEvent]
      split
      · exact frames_pure rfl
      · exact frames_callAll (listenAddrs.map (.addAddress peer)) (hview.addresses s _)
  | identifyOther | ping => exact frames_pure rfl

/-- A tick leaves the announcements as they are. -/
theorem frames_republish (formats : NodeFormats PeerId) (config : NodeConfig PeerId) :
    Frames view s (s.republish formats config) := by
  rw [republish]
  rcases config.suiAddress with _ | suiAddress <;> rcases config.vaultObjectId with _ | vaultId
  · exact frames_pure rfl
  · exact frames_callAll _ rfl
  · exact frames_callAll _ rfl
  · exact (frames_callAll _ rfl).callAll_bind _

end Frames

variable {s : NodeState PeerId}

/-- What an announcement that succeeded leads to: the first time for a blob it is made once
more. -/
structure Retries (s : NodeState PeerId) (key : Bytes) (calls : NodeCalls PeerId)
    (s' : NodeState PeerId) : Prop where
  announcing : s'.announcing = s.announcing
  calls : calls = [] ∧ s' = s ∨
    ∃ blobId : Bytes32, blobId.toList = key ∧ blobId ∉ s.announceRetried ∧
      made calls = [.startProviding key] ∧
      s'.announceRetried = Insert.insert blobId s.announceRetried

/-- The end of an announcement may announce the blob once more. -/
theorem meets_startProvidingOk {h : NodeCalls PeerId} (id : RequestId) (key : Bytes) :
    Meets (.under fun _ _ => True) h (s.handleQueryResult id (.startProviding (.ok key)))
      fun h' s' => ∃ calls, h' = h ++ calls ∧ s.Retries key calls s' := by
  have hnothing : ∃ calls, h = h ++ calls ∧ s.Retries key calls s :=
    ⟨[], (List.append_nil h).symm, rfl, .inl ⟨rfl, rfl⟩⟩
  rw [handleQueryResult]
  split
  · rename_i hlen
    dsimp only
    split
    · exact hnothing
    · rename_i hnew
      exact ⟨trivial, fun r _ =>
        ⟨[⟨.startProviding key, r⟩], rfl, rfl, .inr ⟨⟨key, hlen⟩, rfl, hnew, rfl, rfl⟩⟩⟩
  · exact hnothing

/-- **The events of the behaviours** do not touch the variables about announcements. -/
theorem keeps_handleBehaviourEvent [DecidableEq PeerId] (event : BehaviourEvent PeerId) :
    s.Keeps (s.handleBehaviourEvent event) := by
  by_cases hevent : ∃ id key,
      event = .kad (.outboundQueryProgressed id (.startProviding (.ok key)))
  · obtain ⟨id, key, rfl⟩ := hevent
    exact fun h => (meets_startProvidingOk id key).mono fun _ _ _ ⟨_, _, hretries⟩ =>
      hretries.announcing
  · exact frames_handleBehaviourEvent hides_announcing fun id key heq => hevent ⟨id, key, heq⟩

variable (formats : NodeFormats PeerId) (config : NodeConfig PeerId)

/-- Dialing ends, whatever the answers are. -/
theorem meets_dialAddresses {h : NodeCalls PeerId} (peer : PeerId) (addrs : List Multiaddr)
    (connected : Bool) :
    Meets (.under fun _ _ => True) h (dialAddresses formats peer addrs connected)
      fun _ _ => True := by
  induction addrs generalizing h connected with
  | nil => trivial
  | cons addr rest ih => exact ⟨trivial, fun dialed _ => ih _⟩

end NodeState

/-- The blob that a command announced while no peer was connected. -/
def announcedOffline (input : NodeInput PeerId) (calls : NodeCalls PeerId) : Option Bytes32 :=
  match input with
  | .command (.announceBlob blobId) _ =>
      if calls.any fun
        | ⟨.connectedPeers, connected⟩ => (connected : List PeerId).isEmpty
        | _ => false
      then some blobId else none
  | _ => none

namespace NodeState

variable {s : NodeState PeerId} (formats : NodeFormats PeerId)

/-- **A command leaves the variables about announcements as they are**, except that it queues
a blob it has announced while no peer was connected. -/
theorem meets_handleCommand_announcing [DecidableEq PeerId] (cmd : P2pCommand PeerId)
    (reply : Channel) :
    Meets (.under fun _ _ => True) [] (s.handleCommand formats cmd reply) fun calls s' =>
      s'.bootstrapPeers = s.bootstrapPeers ∧ s'.bootstrapDone = s.bootstrapDone ∧
        s'.announceRetried = s.announceRetried ∧
        s'.pendingAnnounces
          = s.pendingAnnounces ++ (announcedOffline (.command cmd reply) calls).toList ∧
        ∀ blobId, announcedOffline (.command cmd reply) calls = some blobId →
          .startProviding blobId.toList ∈ made calls := by
  cases cmd with
  | announceBlob blobId =>
      refine ⟨trivial, fun started _ => ⟨trivial, fun connected _ => ?_⟩⟩
      rcases connected with _ | ⟨peer, rest⟩
      · refine ⟨rfl, rfl, rfl, rfl, ?_⟩
        rintro _ ⟨⟩
        exact List.mem_cons_self
      · refine ⟨rfl, rfl, rfl, (List.append_nil _).symm, ?_⟩
        rintro _ ⟨⟩
  | dialKadPeer peer addrs =>
      refine (meets_dialAddresses formats peer _ false).bind fun _ success _ _ => ?_
      refine ⟨trivial, fun _ _ => ⟨rfl, rfl, rfl, (List.append_nil _).symm, ?_⟩⟩
      rintro _ ⟨⟩
  | queryPeerAddress target =>
      refine ⟨trivial, fun connected _ => ?_⟩
      rcases connected with _ | ⟨peer, rest⟩ <;>
        exact ⟨trivial, fun _ _ => ⟨rfl, rfl, rfl, (List.append_nil _).symm, by rintro _ ⟨⟩⟩⟩
  | getConnectedPeers =>
      refine ⟨trivial, fun _ _ => ⟨trivial, fun _ _ => ?_⟩⟩
      exact ⟨rfl, rfl, rfl, (List.append_nil _).symm, by rintro _ ⟨⟩⟩
  | _ => exact ⟨trivial, fun _ _ => ⟨rfl, rfl, rfl, (List.append_nil _).symm, by rintro _ ⟨⟩⟩⟩

/-! ### Connections -/

end NodeState

/-- The calls that update the routing table or publish a record of the node. -/
def NodeCall.Records : NodeCall PeerId → Prop
  | .addAddress .. | .putRecord .. => True
  | _ => False

namespace NodeState

/-- What a connection to a peer does about the bootstrap and the stored blobs: whether the
bootstrap was done before, the calls, and whether it is done after them. -/
inductive Bootstrapped (formats : NodeFormats PeerId) (bootstrapPeers : List PeerId)
    (peer : PeerId) : Bool → NodeCalls PeerId → Bool → Prop
  | other (done : Bool) : peer ∉ bootstrapPeers →
      Bootstrapped formats bootstrapPeers peer done [] done
  | first (started : Except String RequestId) : peer ∈ bootstrapPeers →
      Bootstrapped formats bootstrapPeers peer false [⟨.bootstrap, started⟩] started.isOk
  | unlisted (e : String) : peer ∈ bootstrapPeers →
      Bootstrapped formats bootstrapPeers peer true
        [⟨.listBlobIds, (.error e : Except String (List String))⟩] true
  | again (ids : List String) {calls : NodeCalls PeerId} : peer ∈ bootstrapPeers →
      made calls = announcements formats ids →
        Bootstrapped formats bootstrapPeers peer true
          (⟨.listBlobIds, (.ok ids : Except String (List String))⟩ :: calls) true

/-- The calls of a connection: records, what is done about the bootstrap and the stored blobs,
and the queued announcements. -/
structure Connects (s : NodeState PeerId) (formats : NodeFormats PeerId) (peer : PeerId)
    (records boot queued : NodeCalls PeerId) (s' : NodeState PeerId) : Prop where
  records : ∀ ev ∈ records, ev.1.Records
  boot : Bootstrapped formats s.bootstrapPeers peer s.bootstrapDone boot s'.bootstrapDone
  queued : made queued = s.pendingAnnounces.map fun blobId => .startProviding blobId.toList
  peers : s'.bootstrapPeers = s.bootstrapPeers
  flushed : s'.pendingAnnounces = []

variable {s : NodeState PeerId}

/-- A program that makes calls for records only and keeps the variables about
announcements. -/
def Publishes (s : NodeState PeerId) (p : NodeAction PeerId (NodeState PeerId)) : Prop :=
  ∀ h, Meets (.under fun _ _ => True) h p fun h' s' =>
    s'.announcing = s.announcing ∧ ∃ calls, h' = h ++ calls ∧ ∀ ev ∈ calls, ev.1.Records

/-- Calls that put records. -/
theorem publishes_callAll {cs : List (NodeCall PeerId)} (hcs : ∀ c ∈ cs, c.Records)
    {s' : NodeState PeerId} (hs : s'.announcing = s.announcing) :
    s.Publishes (callAll cs >>= fun _ => pure s') := by
  refine fun h => (meets_callAll cs).bind fun h' _ _ hcalls => ⟨hs, ?_⟩
  obtain ⟨calls, rfl, hmade⟩ := hcalls
  refine ⟨calls, rfl, fun ev hev => hcs ev.1 ?_⟩
  rw [← hmade]
  exact List.mem_map_of_mem hev

/-- No calls. -/
theorem publishes_pure : s.Publishes (pure s) := fun h => ⟨rfl, [], by simp⟩

/-- Two programs that put records, one after the other. -/
theorem Publishes.bind {p : NodeAction PeerId (NodeState PeerId)}
    {f : NodeState PeerId → NodeAction PeerId (NodeState PeerId)} (hp : s.Publishes p)
    (hf : ∀ s' : NodeState PeerId, s'.Publishes (f s')) : s.Publishes (p >>= f) := by
  refine fun h => (hp h).bind fun h₁ s₁ _ hrecords => ?_
  obtain ⟨hs, calls, rfl, hcalls⟩ := hrecords
  refine (hf s₁ _).mono fun h₂ s₂ _ hrecords => ?_
  obtain ⟨hs', calls', rfl, hcalls'⟩ := hrecords
  refine ⟨hs'.trans hs, calls ++ calls', List.append_assoc _ _ _, fun ev hev => ?_⟩
  exact (List.mem_append.mp hev).elim (hcalls ev) (hcalls' ev)

variable {formats : NodeFormats PeerId} {config : NodeConfig PeerId}

/-- The address is put at most once. -/
theorem publishes_suiAddrOnce : s.Publishes (s.publishSuiAddrOnce formats config) := by
  rw [publishSuiAddrOnce]
  split
  · exact publishes_pure
  · split
    · exact publishes_callAll (by simp [NodeCall.Records]) rfl
    · exact publishes_pure

/-- So is the vault. -/
theorem publishes_vaultOnce : s.Publishes (s.publishVaultOnce formats config) := by
  rw [publishVaultOnce]
  split
  · exact publishes_pure
  · split
    · exact publishes_callAll (by simp [NodeCall.Records]) rfl
    · exact publishes_pure

variable [DecidableEq PeerId]

/-- What a connection does about the bootstrap and the stored blobs. -/
theorem meets_bootstrapConnected {h : NodeCalls PeerId} (peer : PeerId) :
    Meets (.under fun _ _ => True) h (s.bootstrapConnected formats peer) fun h' s' =>
      ∃ calls, h' = h ++ calls ∧
        Bootstrapped formats s.bootstrapPeers peer s.bootstrapDone calls s'.bootstrapDone ∧
          s'.bootstrapPeers = s.bootstrapPeers ∧ s'.pendingAnnounces = s.pendingAnnounces := by
  rw [bootstrapConnected]
  split
  · rename_i hpeer
    cases hdone : s.bootstrapDone with
    | true =>
        rw [if_pos rfl]
        refine ⟨trivial, fun listed _ => ?_⟩
        rcases listed with e | ids
        · refine ⟨_, rfl, ?_, rfl, rfl⟩
          rw [hdone]
          exact .unlisted e hpeer
        · refine (meets_callAll _).bind fun h' _ _ hcalls => ?_
          obtain ⟨calls, rfl, hmade⟩ := hcalls
          refine ⟨_, List.append_assoc _ _ _, ?_, rfl, rfl⟩
          rw [hdone]
          exact .again ids hpeer hmade
    | false =>
        rw [if_neg Bool.false_ne_true]
        refine ⟨trivial, fun started _ => ?_⟩
        rcases started with e | id
        · refine ⟨_, rfl, ?_, rfl, rfl⟩
          rw [hdone]
          exact .first (.error e) hpeer
        · exact ⟨_, rfl, .first (.ok id) hpeer, rfl, rfl⟩
  · rename_i hpeer
    exact ⟨[], (List.append_nil h).symm, .other _ hpeer, rfl, rfl⟩

/-- **A connection**: its calls, and the variables after them. -/
theorem meets_handleConnectionEstablished (peer : PeerId) (endpoint : ConnectedPoint) :
    Meets (.under fun _ _ => True) []
      (s.handleConnectionEstablished formats config peer endpoint) fun calls s' =>
        ∃ records boot queued, calls = records ++ boot ++ queued ∧
          s.Connects formats peer records boot queued s' := by
  refine (meets_callAll _).bind fun added _ _ hadded => ?_
  obtain ⟨_, rfl, hadded⟩ := hadded
  have hpublish : s.Publishes (s.publishSuiAddrOnce formats config >>= fun s' =>
      s'.publishVaultOnce formats config) :=
    publishes_suiAddrOnce.bind fun _ => publishes_vaultOnce
  rw [← bind_assoc]
  refine (hpublish _).bind fun h₂ s₂ _ hpublished => ?_
  obtain ⟨hsame, published, rfl, hrecords⟩ := hpublished
  obtain ⟨hpeers, hdone, hqueue⟩ : s₂.bootstrapPeers = s.bootstrapPeers ∧
      s₂.bootstrapDone = s.bootstrapDone ∧ s₂.pendingAnnounces = s.pendingAnnounces := by
    simpa [announcing] using hsame
  refine (meets_bootstrapConnected peer).bind fun h₃ s₃ _ hboot => ?_
  obtain ⟨boot, rfl, hboot, hpeers', hqueue'⟩ := hboot
  refine (meets_callAll _).bind fun h₄ _ _ hqueued => ?_
  obtain ⟨queued, rfl, hqueued⟩ := hqueued
  rw [hpeers, hdone] at hboot
  rw [hqueue', hqueue] at hqueued
  refine ⟨added ++ published, boot, queued, by simp, ⟨fun ev hev => ?_, hboot, hqueued,
    hpeers'.trans hpeers, rfl⟩⟩
  rcases List.mem_append.mp hev with hev | hev
  · have hmade : ev.1 ∈ made added := List.mem_map_of_mem hev
    rw [hadded, List.mem_singleton] at hmade
    rw [hmade]
    trivial
  · exact hrecords ev hev

end NodeState

/-! ### What a connection announces -/

section Connections

variable {s s' : NodeState PeerId} {formats : NodeFormats PeerId} {peer : PeerId}
  {bootstrapPeers : List PeerId} {done done' : Bool} {records boot queued : NodeCalls PeerId}

open NodeState

/-- The bootstrap is done after a connection if it was before, or was started then. -/
theorem NodeState.Bootstrapped.done_iff
    (hboot : Bootstrapped formats bootstrapPeers peer done boot done') :
    done' = true ↔ done = true ∨
      ∃ id : RequestId, ⟨.bootstrap, (.ok id : Except String RequestId)⟩ ∈ boot := by
  cases hboot with
  | other => simp
  | first started =>
      rcases started with e | id
      · refine ⟨fun hdone => (by cases hdone), ?_⟩
        rintro (hdone | ⟨id, hid⟩)
        · cases hdone
        · obtain ⟨-, hid⟩ := Sigma.mk.inj (List.mem_singleton.mp hid)
          cases eq_of_heq hid
      · exact ⟨fun _ => .inr ⟨id, List.mem_singleton_self _⟩, fun _ => rfl⟩
  | unlisted | again => simp

/-- The store is listed only on a connection to a bootstrap peer after the bootstrap. -/
theorem NodeState.Bootstrapped.of_listed
    (hboot : Bootstrapped formats bootstrapPeers peer done boot done')
    {listed : Except String (List String)} (hmem : ⟨.listBlobIds, listed⟩ ∈ boot) :
    peer ∈ bootstrapPeers ∧ done = true := by
  cases hboot with
  | other => cases hmem
  | first started =>
      have hcall := congrArg Sigma.fst (List.mem_singleton.mp hmem)
      cases hcall
  | unlisted _ hpeer => exact ⟨hpeer, rfl⟩
  | again _ hpeer => exact ⟨hpeer, rfl⟩

/-- A stored blob is announced only when the store was listed. -/
theorem NodeState.Bootstrapped.of_provided
    (hboot : Bootstrapped formats bootstrapPeers peer done boot done') {key : Bytes}
    (hmade : .startProviding key ∈ made boot) :
    ∃ ids, ⟨.listBlobIds, (.ok ids : Except String (List String))⟩ ∈ boot := by
  cases hboot with
  | other => cases hmade
  | first started =>
      have hcall := List.mem_singleton.mp hmade
      cases hcall
  | unlisted e =>
      have hcall := List.mem_singleton.mp hmade
      cases hcall
  | again ids => exact ⟨ids, List.mem_cons_self⟩

/-- On such a connection the store is listed, and what is listed is announced. -/
theorem NodeState.Bootstrapped.listed
    (hboot : Bootstrapped formats bootstrapPeers peer true boot done')
    (hpeer : peer ∈ bootstrapPeers) :
    ∃ listed : Except String (List String), ⟨.listBlobIds, listed⟩ ∈ boot ∧
      ∀ ids, listed = .ok ids → ∀ id ∈ ids, ∀ blobId, formats.parseBlobId id = .ok ⟨blobId⟩ →
        .startProviding blobId.toList ∈ made boot := by
  cases hboot with
  | other _ hother => exact absurd hpeer hother
  | unlisted e => exact ⟨.error e, List.mem_singleton_self _, by simp⟩
  | again ids _ hmade =>
      refine ⟨.ok ids, List.mem_cons_self, ?_⟩
      rintro _ ⟨⟩ id hid blobId hparse
      refine List.mem_cons_of_mem _ ?_
      show _ ∈ made _
      rw [hmade]
      exact mem_announcements_iff.mpr ⟨id, hid, hparse⟩

/-- A connection announces the queued blobs and stored ones. -/
theorem NodeState.Connects.provided_iff (hconn : s.Connects formats peer records boot queued s')
    {blobId : Bytes32} : .startProviding blobId.toList ∈ made (records ++ boot ++ queued) ↔
      blobId ∈ s.pendingAnnounces ∨ .startProviding blobId.toList ∈ made boot := by
  have hrecords : .startProviding blobId.toList ∉ made records := by
    intro hmade
    obtain ⟨ev, hev, hcall⟩ := List.mem_map.mp hmade
    have := hconn.records ev hev
    rw [hcall] at this
    exact this
  have hqueued : .startProviding blobId.toList ∈ made queued ↔ blobId ∈ s.pendingAnnounces := by
    rw [hconn.queued, List.mem_map]
    constructor
    · rintro ⟨b, hb, hcall⟩
      rwa [← List.Vector.eq _ _ (NodeCall.startProviding.inj hcall)]
    · exact fun hb => ⟨blobId, hb, rfl⟩
  rw [made_append, made_append, List.mem_append, List.mem_append, hqueued]
  simp only [hrecords, false_or, or_comm]

/-- A call that is not for a record is about the bootstrap or an announcement. -/
theorem NodeState.Connects.mem_boot (hconn : s.Connects formats peer records boot queued s')
    {ev : Event (@NodeCall.Ans PeerId)} (hrecords : ¬ ev.1.Records)
    (hqueued : ∀ key, ev.1 ≠ .startProviding key) :
    ev ∈ records ++ boot ++ queued ↔ ev ∈ boot := by
  refine ⟨fun hev => ?_, fun hev => List.mem_append_left _ (List.mem_append_right _ hev)⟩
  rcases List.mem_append.mp hev with hev | hev
  · exact (List.mem_append.mp hev).resolve_left fun hev => hrecords (hconn.records ev hev)
  · have hmade : ev.1 ∈ made queued := List.mem_map_of_mem hev
    rw [hconn.queued] at hmade
    obtain ⟨blobId, -, hcall⟩ := List.mem_map.mp hmade
    exact absurd hcall.symm (hqueued _)

/-- The turn of a connection starts the bootstrap when the connection does. -/
theorem NodeState.Connects.bootstraps_iff (hconn : s.Connects formats peer records boot queued s')
    (endpoint : ConnectedPoint) :
    Turn.Bootstraps ⟨.event (.connectionEstablished peer endpoint), records ++ boot ++ queued⟩ ↔
      ∃ id : RequestId, ⟨.bootstrap, (.ok id : Except String RequestId)⟩ ∈ boot := by
  have hboot : ∀ id : RequestId,
      ⟨.bootstrap, (.ok id : Except String RequestId)⟩ ∈ records ++ boot ++ queued ↔
        ⟨.bootstrap, (.ok id : Except String RequestId)⟩ ∈ boot :=
    fun id => hconn.mem_boot (fun h => h) fun _ h => by cases h
  constructor
  · rintro ⟨-, id, hid⟩
    exact ⟨id, (hboot id).mp hid⟩
  · rintro ⟨id, hid⟩
    exact ⟨⟨peer, endpoint, rfl⟩, id, (hboot id).mpr hid⟩

end Connections

/-! ### Turns -/

/-- What the variables of the loop say about its past turns. -/
structure Announced (config : NodeConfig PeerId) (run : NodeRun PeerId) : Prop where
  peers : run.state.bootstrapPeers = config.bootstrapAddrs.map Prod.fst
  done_iff : run.state.bootstrapDone = true ↔ ∃ turn ∈ run.turns, turn.Bootstraps
  queued : ∀ blobId ∈ run.state.pendingAnnounces, Provided run.turns blobId

section Runs

variable {formats : NodeFormats PeerId} {config : NodeConfig PeerId} {s s' : NodeState PeerId}
  {turns : List (Turn PeerId)} {input : NodeInput PeerId} {calls : NodeCalls PeerId}

/-- What has been announced stays announced. -/
theorem Provided.append {blobId : Bytes32} (h : Provided turns blobId)
    (turns' : List (Turn PeerId)) : Provided (turns ++ turns') blobId := by
  obtain ⟨turn, hturn, hmade⟩ := h
  exact ⟨turn, List.mem_append_left _ hturn, hmade⟩

/-- A turn on another input leaves the variables as they are, or queues what it announced. -/
theorem Announced.snoc_of_not_connection (ha : Announced config ⟨s, turns⟩)
    (hinput : ∀ peer endpoint, input ≠ .event (.connectionEstablished peer endpoint))
    (hpeers : s'.bootstrapPeers = s.bootstrapPeers) (hdone : s'.bootstrapDone = s.bootstrapDone)
    (hqueued : ∀ blobId ∈ s'.pendingAnnounces,
      blobId ∈ s.pendingAnnounces ∨ .startProviding blobId.toList ∈ made calls) :
    Announced config ⟨s', turns ++ [⟨input, calls⟩]⟩ where
  peers := hpeers.trans ha.peers
  done_iff := by
    have hnot : ¬ Turn.Bootstraps ⟨input, calls⟩ :=
      fun ⟨⟨peer, endpoint, heq⟩, _⟩ => hinput peer endpoint heq
    show s'.bootstrapDone = true ↔ _
    rw [hdone, ha.done_iff]
    simp [hnot]
  queued := by
    intro blobId hmem
    rcases hqueued blobId hmem with hold | hnew
    · exact (ha.queued blobId hold).append _
    · exact ⟨_, List.mem_append_right _ (List.mem_singleton_self _), hnew⟩

/-- A turn on another input that keeps the variables. -/
theorem Announced.snoc_of_keeps {p : NodeAction PeerId (NodeState PeerId)}
    (ha : Announced config ⟨s, turns⟩) (hp : s.Keeps p) (hrun : p.Runs calls (some s'))
    (hinput : ∀ peer endpoint, input ≠ .event (.connectionEstablished peer endpoint)) :
    Announced config ⟨s', turns ++ [⟨input, calls⟩]⟩ := by
  obtain ⟨_, heq, hsame⟩ := (hp []).ends hrun fun _ _ => trivial
  obtain rfl := Option.some.inj heq
  obtain ⟨hpeers, hdone, hqueue⟩ : s'.bootstrapPeers = s.bootstrapPeers ∧
      s'.bootstrapDone = s.bootstrapDone ∧ s'.pendingAnnounces = s.pendingAnnounces := by
    simpa [NodeState.announcing] using hsame
  exact ha.snoc_of_not_connection hinput hpeers hdone fun _ hmem => .inl (hqueue ▸ hmem)

/-- A connection may start the bootstrap, and empties the queue. -/
theorem Announced.snoc_of_connection {peer : PeerId} {endpoint : ConnectedPoint}
    {records boot queued : NodeCalls PeerId} (ha : Announced config ⟨s, turns⟩)
    (hconn : s.Connects formats peer records boot queued s') :
    Announced config ⟨s', turns ++
      [⟨.event (.connectionEstablished peer endpoint), records ++ boot ++ queued⟩]⟩ where
  peers := hconn.peers.trans ha.peers
  done_iff := by
    show s'.bootstrapDone = true ↔ _
    rw [hconn.boot.done_iff, ha.done_iff, ← hconn.bootstraps_iff endpoint]
    simp [or_and_right, exists_or]
  queued := by
    intro blobId hmem
    have hnil : s'.pendingAnnounces = [] := hconn.flushed
    exact absurd (hnil ▸ hmem) List.not_mem_nil

variable [DecidableEq PeerId]

/-- **One turn.** -/
theorem Announced.snoc (ha : Announced config ⟨s, turns⟩)
    (hrun : (s.handle formats config input).Runs calls (some s')) :
    Announced config ⟨s', turns ++ [⟨input, calls⟩]⟩ := by
  cases input with
  | command cmd reply =>
      obtain ⟨_, heq, hpeers, hdone, -, hqueue, hmade⟩ :=
        (NodeState.meets_handleCommand_announcing formats cmd reply).ends hrun fun _ _ => trivial
      obtain rfl := Option.some.inj heq
      refine ha.snoc_of_not_connection (by simp) hpeers hdone fun blobId hmem => ?_
      rw [hqueue, List.mem_append, Option.mem_toList] at hmem
      exact hmem.imp_right (hmade blobId)
  | tick => exact ha.snoc_of_keeps (NodeState.frames_republish formats config) hrun (by simp)
  | event event =>
      cases event with
      | behaviour event =>
          exact ha.snoc_of_keeps (NodeState.keeps_handleBehaviourEvent event) hrun (by simp)
      | other => exact ha.snoc_of_keeps (NodeState.frames_pure rfl) hrun (by simp)
      | connectionEstablished peer endpoint =>
          obtain ⟨_, heq, records, boot, queued, rfl, hconn⟩ :=
            (NodeState.meets_handleConnectionEstablished peer endpoint).ends hrun
              fun _ _ => trivial
          obtain rfl := Option.some.inj heq
          exact ha.snoc_of_connection hconn

/-- **The variables of the loop tell its past turns**, in every run. -/
theorem announced_of_reachable {run : NodeRun PeerId}
    (hrun : ReachableNode formats config run) : Announced config run := by
  refine hrun.invariant (Announced config) ?_ ?_
  · rintro ⟨s, turns⟩ ⟨hturns, calls, hstart⟩
    obtain rfl : turns = [] := hturns
    obtain rfl : s = .initial config := startup_eq hstart
    exact ⟨rfl, by simp [NodeState.initial], by simp [NodeState.initial]⟩
  · rintro _ _ ha ⟨hturn⟩
    exact ha.snoc hturn

omit [DecidableEq PeerId] in
/-- What is announced by the end of a connection was announced before it, or the connection
listed the store. -/
theorem Announced.provided_or_listed {peer : PeerId} {records boot queued : NodeCalls PeerId}
    {turn : Turn PeerId} {blobId : Bytes32} (ha : Announced config ⟨s, turns⟩)
    (hconn : s.Connects formats peer records boot queued s')
    (hcalls : turn.calls = records ++ boot ++ queued)
    (hprovided : Provided (turns ++ [turn]) blobId) :
    Provided turns blobId ∨
      ∃ ids, ⟨.listBlobIds, (.ok ids : Except String (List String))⟩ ∈ boot := by
  obtain ⟨t, ht, hmade⟩ := hprovided
  rcases List.mem_append.mp ht with ht | ht
  · exact .inl ⟨t, ht, hmade⟩
  · obtain rfl := List.mem_singleton.mp ht
    rw [hcalls, hconn.provided_iff] at hmade
    rcases hmade with hqueued | hmade
    · exact .inl (ha.queued blobId hqueued)
    · exact .inr (hconn.boot.of_provided hmade)

/-- A run up to one of its turns is a run, and the turn is one more. -/
theorem ReachableNode.split {run : NodeRun PeerId} (hrun : ReachableNode formats config run)
    {before after : List (Turn PeerId)} {turn : Turn PeerId}
    (hturns : run.turns = before ++ turn :: after) :
    ∃ s s', ReachableNode formats config ⟨s, before⟩ ∧
      (s.handle formats config turn.input).Runs turn.calls (some s') := by
  obtain ⟨start, hstart, hsteps⟩ := hrun
  induction hsteps generalizing after with
  | refl =>
      rw [hstart.1] at hturns
      simp at hturns
  | @tail run' run hsteps hlast ih =>
      obtain ⟨hturn⟩ := hlast
      rcases List.eq_nil_or_concat after with rfl | ⟨after, last, rfl⟩
      · obtain ⟨rfl, hlast⟩ := List.append_inj' hturns rfl
        obtain rfl := List.singleton_inj.mp hlast
        exact ⟨_, _, ⟨start, hstart, hsteps⟩, hturn⟩
      · rw [List.concat_eq_append, ← List.cons_append, ← List.append_assoc] at hturns
        exact ih (List.append_inj' hturns rfl).1

end Runs

/-! ### Stored blobs -/

/-- The peer is a bootstrap peer: configured, or added by a command. -/
def BootstrapPeer (config : NodeConfig PeerId) (turns : List (Turn PeerId)) (peer : PeerId) :
    Prop :=
  peer ∈ config.bootstrapAddrs.map Prod.fst ∨
    ∃ turn ∈ turns, ∃ addr reply, turn.input = .command (.addBootstrapPeer peer addr) reply

/-- The blob is in the store. -/
def StoredBlob (formats : NodeFormats PeerId) (db : BlobStore) (blobId : Bytes32) : Prop :=
  ∃ id ∈ db.listBlobIds, formats.parseBlobId id = .ok ⟨blobId⟩

/-- What listing the store returns: its keys, unless reading them fails. -/
def listing (db : BlobStore) : Option String → Except String (List String)
  | none => .ok db.listBlobIds
  | some e => .error e

/-- **Stored blobs are announced on reconnects to configured peers only.** After any
connection, in every run, all blobs of the store have been announced in this process if and
only if they had been before already, or the peer is configured as a bootstrap peer, an
earlier connection started the bootstrap query, and the store can be listed. -/
theorem cached_blobs_announced_iff [DecidableEq PeerId] {formats : NodeFormats PeerId}
    {config : NodeConfig PeerId} {run : NodeRun PeerId} (hrun : ReachableNode formats config run)
    {before after : List (Turn PeerId)} {turn : Turn PeerId}
    (hturns : run.turns = before ++ turn :: after) {peer : PeerId} {endpoint : ConnectedPoint}
    (hinput : turn.input = .event (.connectionEstablished peer endpoint)) {db : BlobStore}
    {failure : Option String}
    (hlisted : ∀ listed : Except String (List String),
      ⟨.listBlobIds, listed⟩ ∈ turn.calls → listed = listing db failure) :
    (∀ blobId, StoredBlob formats db blobId → Provided (before ++ [turn]) blobId) ↔
      (∀ blobId, StoredBlob formats db blobId → Provided before blobId) ∨
        peer ∈ config.bootstrapAddrs.map Prod.fst ∧ (∃ t ∈ before, t.Bootstraps) ∧
          failure = none := by
  obtain ⟨s, s', hbefore, hturn⟩ := hrun.split hturns
  have ha := announced_of_reachable hbefore
  rw [hinput] at hturn
  obtain ⟨_, heq, records, boot, queued, hcalls, hconn⟩ :=
    (NodeState.meets_handleConnectionEstablished peer endpoint).ends hturn fun _ _ => trivial
  obtain rfl := Option.some.inj heq
  have hpeers : s.bootstrapPeers = config.bootstrapAddrs.map Prod.fst := ha.peers
  have hboot : ∀ listed : Except String (List String),
      ⟨.listBlobIds, listed⟩ ∈ boot → listed = listing db failure := by
    intro listed hmem
    refine hlisted listed ?_
    rw [hcalls]
    exact List.mem_append_left _ (List.mem_append_right _ hmem)
  constructor
  · intro hall
    -- either the connection listed the store, or it announced nothing new
    by_cases hlist : ∃ ids, ⟨.listBlobIds, (.ok ids : Except String (List String))⟩ ∈ boot
    · obtain ⟨ids, hids⟩ := hlist
      obtain ⟨hpeer, hdone⟩ := hconn.boot.of_listed hids
      refine .inr ⟨hpeers ▸ hpeer, ha.done_iff.mp hdone, ?_⟩
      cases failure with
      | none => rfl
      | some e => exact absurd (hboot _ hids) (by simp [listing])
    · exact .inl fun blobId hstored =>
        (ha.provided_or_listed hconn hcalls (hall blobId hstored)).resolve_right hlist
  · rintro (hall | ⟨hpeer, hstarted, rfl⟩) blobId hstored
    · exact (hall blobId hstored).append [turn]
    · obtain ⟨id, hid, hparse⟩ := hstored
      have hdone : s.bootstrapDone = true := ha.done_iff.mpr hstarted
      have hconnected := hconn.boot
      rw [hdone] at hconnected
      obtain ⟨listed, hmem, hprovided⟩ := hconnected.listed (hpeers ▸ hpeer)
      refine ⟨turn, List.mem_append_right _ (List.mem_singleton_self _), ?_⟩
      rw [hcalls, hconn.provided_iff]
      exact .inr (hprovided _ (hboot listed hmem) id hid blobId hparse)

/-! ### A restart with a stored blob -/

section Restart

/-- The formats of the node; the only key that is an id is the one of the byte 1. -/
def restartFormats : NodeFormats ℕ :=
  ⟨fun _ => [], fun _ => true, fun addr _ => addr,
    fun key => if key = sampleKey then .ok (sampleBlobId [1]) else .error "invalid length"⟩

/-- The node 0 with the bootstrap peer 1. -/
def restartConfig : NodeConfig ℕ := ⟨0, "/ip4", [(1, "/ip4/1")], [], none, none⟩

/-- The store of an earlier process. -/
def restartStore : BlobStore := { blobs := AList.singleton sampleKey [1], pins := ∅ }

/-- The first connection to the bootstrap peer. -/
def firstTurn : Turn ℕ :=
  ⟨.event (.connectionEstablished 1 (.dialer "/ip4/1")),
    [⟨.addAddress 1 "/ip4/1", ()⟩, ⟨.bootstrap, (.ok 7 : Except String RequestId)⟩]⟩

/-- A reconnect to it. -/
def againTurn : Turn ℕ :=
  ⟨.event (.connectionEstablished 1 (.dialer "/ip4/1")),
    [⟨.addAddress 1 "/ip4/1", ()⟩,
      ⟨.listBlobIds, (.ok [sampleKey] : Except String (List String))⟩,
      ⟨.startProviding (sampleBlobId [1]).bytes.toList, (.ok 8 : Except String RequestId)⟩]⟩

/-- The command that adds the bootstrap peer 2. -/
def addTurn : Turn ℕ :=
  ⟨.command (.addBootstrapPeer 2 "/ip4/2") 0, [⟨.addAddress 2 "/ip4/2", ()⟩]⟩

/-- The connection to it. -/
def addedTurn : Turn ℕ :=
  ⟨.event (.connectionEstablished 2 (.listener "/ip4/2")), [⟨.addAddress 2 "/ip4/2", ()⟩]⟩

/-- The node starts, and meets its bootstrap peer. -/
theorem reachable_firstTurn : ReachableNode restartFormats restartConfig
    ⟨{ NodeState.initial restartConfig with bootstrapDone := true }, [firstTurn]⟩ := by
  have hstart : ReachableNode restartFormats restartConfig ⟨.initial restartConfig, []⟩ :=
    Transition.Reachable.of_init ⟨rfl, [⟨.listenOn "/ip4", (.ok () : Except String Unit)⟩,
      ⟨.addAddress 1 "/ip4/1", ()⟩, ⟨.dial "/ip4/1", (.ok () : Except String Unit)⟩],
      .call _ (.call _ (.call _ (.ret _)))⟩
  exact hstart.snoc (.turn (.call _ (.call _ (.ret _))))

/-- **A restarted node does not announce its blobs.** The store holds a blob of an earlier
process. The node connects to its configured bootstrap peer; later a bootstrap peer is added
and connects. The blob is not announced after the first of these connections, and not after
the second. -/
theorem not_cached_blobs_announced :
    ∃ run blobId, ReachableNode restartFormats restartConfig run ∧
      run.turns = [firstTurn, addTurn, addedTurn] ∧
      StoredBlob restartFormats restartStore blobId ∧
      (BootstrapPeer restartConfig [] 1 ∧ ¬ Provided [firstTurn] blobId) ∧
      BootstrapPeer restartConfig [firstTurn, addTurn] 2 ∧
        ¬ Provided [firstTurn, addTurn, addedTurn] blobId := by
  have hadd : ReachableNode restartFormats restartConfig ⟨_, [firstTurn, addTurn]⟩ :=
    reachable_firstTurn.snoc (.turn (.call _ (.ret _)))
  have hadded : ReachableNode restartFormats restartConfig ⟨_, [firstTurn, addTurn, addedTurn]⟩ :=
    hadd.snoc (.turn (.call _ (.ret _)))
  have hnone : ¬ Provided [firstTurn, addTurn, addedTurn] (sampleBlobId [1]).bytes := by
    rintro ⟨turn, hturn, hmade⟩
    simp only [List.mem_cons, List.not_mem_nil, or_false] at hturn
    rcases hturn with rfl | rfl | rfl <;> simp [made, firstTurn, addTurn, addedTurn] at hmade
  exact ⟨_, _, hadded, rfl, ⟨sampleKey, List.mem_singleton_self _, rfl⟩,
    ⟨.inl (by decide), fun h => hnone (h.append [addTurn, addedTurn])⟩,
    .inr ⟨addTurn, by simp, _, _, rfl⟩, hnone⟩

/-- The reconnect announces the stored blob. -/
theorem cached_blobs_announced_iff_again :
    Provided [firstTurn, againTurn] (sampleBlobId [1]).bytes := by
  have hagain : ReachableNode restartFormats restartConfig ⟨_, [firstTurn, againTurn]⟩ :=
    reachable_firstTurn.snoc (.turn (.call _ (.call _ (.call _ (.ret _)))))
  obtain ⟨run, hrun, hturns⟩ : ∃ run, ReachableNode restartFormats restartConfig run ∧
      run.turns = [firstTurn] ++ againTurn :: [] := ⟨_, hagain, rfl⟩
  have hlisted : ∀ listed : Except String (List String),
      ⟨.listBlobIds, listed⟩ ∈ againTurn.calls → listed = listing restartStore none := by
    intro listed hmem
    simp only [againTurn, List.mem_cons, List.not_mem_nil, or_false] at hmem
    rcases hmem with hcall | hcall | hcall
    · cases congrArg Sigma.fst hcall
    · obtain ⟨-, hlist⟩ := Sigma.mk.inj hcall
      exact eq_of_heq hlist
    · cases congrArg Sigma.fst hcall
  exact (cached_blobs_announced_iff hrun hturns rfl hlisted).mpr (.inr ⟨by decide,
    ⟨firstTurn, List.mem_singleton_self _, ⟨1, _, rfl⟩, 7, by simp [firstTurn]⟩, rfl⟩) _
      ⟨sampleKey, List.mem_singleton_self _, rfl⟩

end Restart

end ZingCdn
