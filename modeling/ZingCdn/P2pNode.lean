import Mathlib.Data.Finset.Insert
import Mathlib.Data.List.AList
import ZingCdn.Effects
import ZingCdn.Handler
import ZingCdn.Library.Transition

/-!
# The Event Loop of the P2P Node

`ZingP2pNode::run`: one loop that takes a command, an event of the swarm, or a tick of the
timer that republishes the node's records, and handles it to the end before it takes the
next. The replies to commands go to one-shot channels, which the loop keeps in seven maps
until the swarm reports on the request or query they wait for.

Handling an input is a program over the calls to the swarm, to the blob store and to the
reply channels, whose answers may be anything: which ids the swarm hands out, which peers it
is connected to, what the store holds.
-/

open Program Program.Prog

namespace ZingCdn

variable {PeerId : Type}

/-! ### Requests, ids and channels -/

/-- An `OutboundRequestId` of a behaviour, or a Kademlia `QueryId`. -/
abbrev RequestId : Type := ℕ

/-- The reply channel of a command. -/
abbrev Channel : Type := ℕ

/-- The channel of an inbound request. -/
abbrev ResponseChannel : Type := ℕ

/-- What is sent on a reply channel. -/
inductive Message (PeerId : Type)
  | peers (l : List PeerId)
  | data (r : ZingResult Bytes)
  | dialed (success : Bool)
  | addresses (l : List Multiaddr)
  | record (value : Option Bytes32)
deriving DecidableEq

/-- The maps of pending reply channels: `pending_finds`, `pending_fetches` and so on. -/
inductive Slot
  | finds
  | fetches
  | rangeFetches
  | sliverFetches
  | addrQueries
  | suiAddrQueries
  | vaultQueries
deriving DecidableEq

/-- The behaviours that hand out ids, each from a space of its own. -/
inductive IdSpace
  | kad
  | data
  | range
  | sliver
  | addr
deriving DecidableEq

/-- The behaviour whose ids a map is keyed by. -/
def Slot.idSpace : Slot → IdSpace
  | .finds | .suiAddrQueries | .vaultQueries => .kad
  | .fetches => .data
  | .rangeFetches => .range
  | .sliverFetches => .sliver
  | .addrQueries => .addr

/-! ### Events -/

/-- `kad::GetRecordOk`. -/
inductive GetRecordOk
  | foundRecord (value : Bytes)
  | finishedWithNoAdditionalRecord
deriving DecidableEq

/-- `kad::GetProvidersOk`, with the providers in the order of their iteration. -/
inductive GetProvidersOk (PeerId : Type)
  | foundProviders (providers : List PeerId)
  | finishedWithNoAdditionalRecord
deriving DecidableEq

/-- `kad::QueryResult`, with the texts of its errors. -/
inductive QueryResult (PeerId : Type)
  | getProviders (r : Except String (GetProvidersOk PeerId))
  | startProviding (r : Except String Bytes)
  | bootstrap (r : Except String ℕ)
  | getRecord (r : Except String GetRecordOk)
  | putRecord (r : Except String Unit)
  | other

/-- `kad::Event`. -/
inductive KadEvent (PeerId : Type)
  | routingUpdated (peer : PeerId) (addresses : List Multiaddr)
  | outboundQueryProgressed (id : RequestId) (result : QueryResult PeerId)
  | other

/-- `request_response::Event`. -/
inductive RequestResponseEvent (PeerId Req Resp : Type)
  | request (request : Req) (channel : ResponseChannel)
  | response (requestId : RequestId) (response : Resp)
  | outboundFailure (requestId : RequestId) (peer : PeerId) (error : String)
  | inboundFailure (error : String)
  | other

/-- `ZingBehaviourEvent`. -/
inductive BehaviourEvent (PeerId : Type)
  | kad (event : KadEvent PeerId)
  | data (event : RequestResponseEvent PeerId BlobRequest BlobResponse)
  | range (event : RequestResponseEvent PeerId RangeRequest RangeResponse)
  | sliver (event : RequestResponseEvent PeerId SliverRequest SliverResponse)
  | addr (event : RequestResponseEvent PeerId (AddrRequest PeerId) AddrResponse)
  | identifyReceived (peerId : PeerId) (listenAddrs : List Multiaddr)
  | identifyOther
  | ping

/-- `ConnectedPoint`. -/
inductive ConnectedPoint
  | dialer (address : Multiaddr)
  | listener (sendBackAddr : Multiaddr)
deriving DecidableEq

/-- `SwarmEvent`; the events that are only logged are one. -/
inductive SwarmEvent (PeerId : Type)
  | behaviour (event : BehaviourEvent PeerId)
  | connectionEstablished (peerId : PeerId) (endpoint : ConnectedPoint)
  | other

/-- What the loop takes: a command with its reply channel, an event, or a tick. -/
inductive NodeInput (PeerId : Type)
  | command (cmd : P2pCommand PeerId) (reply : Channel)
  | event (event : SwarmEvent PeerId)
  | tick

/-! ### Calls -/

/-- The calls to the swarm, the blob store and the reply channels. Inbound requests are
answered by the handlers of the blob store. -/
inductive NodeCall (PeerId : Type)
  | listenOn (addr : Multiaddr)
  | addExternalAddress (addr : Multiaddr)
  | addAddress (peer : PeerId) (addr : Multiaddr)
  | startProviding (key : Bytes)
  | getProviders (key : Bytes)
  | getRecord (key : Bytes)
  | putRecord (key value : Bytes)
  | bootstrap
  | sendBlobRequest (peer : PeerId) (request : BlobRequest)
  | sendRangeRequest (peer : PeerId) (request : RangeRequest)
  | sendSliverRequest (peer : PeerId) (request : SliverRequest)
  | sendAddrRequest (peer : PeerId) (request : AddrRequest PeerId)
  | serveBlobRequest (request : BlobRequest) (channel : ResponseChannel)
  | serveRangeRequest (request : RangeRequest) (channel : ResponseChannel)
  | serveSliverRequest (request : SliverRequest) (channel : ResponseChannel)
  | sendAddrResponse (channel : ResponseChannel) (response : AddrResponse)
  | dial (addr : Multiaddr)
  | disconnect (peer : PeerId)
  | connectedPeers
  | listBlobIds
  | reply (channel : Channel) (msg : Message PeerId)
deriving DecidableEq

/-- The answers to the calls, with the texts of their errors. -/
def NodeCall.Ans : NodeCall PeerId → Type
  | .startProviding _ | .putRecord .. | .bootstrap => Except String RequestId
  | .getProviders _ | .getRecord _ | .sendBlobRequest .. | .sendRangeRequest ..
  | .sendSliverRequest .. | .sendAddrRequest .. => RequestId
  | .listenOn _ | .dial _ | .disconnect _ => Except String Unit
  | .connectedPeers => List PeerId
  | .listBlobIds => Except String (List String)
  | .addExternalAddress _ | .addAddress .. | .serveBlobRequest .. | .serveRangeRequest ..
  | .serveSliverRequest .. | .sendAddrResponse .. | .reply .. => Unit

/-- A program of the loop. -/
abbrev NodeAction (PeerId : Type) : Type → Type := Prog (@NodeCall.Ans PeerId)

/-- The calls of a program with their answers. -/
abbrev NodeCalls (PeerId : Type) : Type := History (@NodeCall.Ans PeerId)

/-- Make one call. -/
abbrev callNode (c : NodeCall PeerId) : NodeAction PeerId c.Ans := Prog.perform c

/-- Make several calls, whatever their answers are. -/
def callAll : List (NodeCall PeerId) → NodeAction PeerId Unit
  | [] => pure ()
  | c :: rest => do
      let _ ← callNode c
      callAll rest

/-! ### The state -/

/-- The parameters of the loop. -/
structure NodeConfig (PeerId : Type) where
  localPeerId : PeerId
  listenAddr : Multiaddr
  bootstrapAddrs : List (PeerId × Multiaddr)
  externalAddrs : List Multiaddr
  suiAddress : Option Bytes32
  vaultObjectId : Option Bytes32

/-- The variables of the loop. -/
structure NodeState (PeerId : Type) where
  pending : Slot → AList fun _ : RequestId => Channel
  peerAddresses : AList fun _ : PeerId => List Multiaddr
  bootstrapPeers : List PeerId
  bootstrapDone : Bool
  suiAddrPublished : Bool
  vaultPublished : Bool
  pendingAnnounces : List Bytes32
  announceRetried : Finset Bytes32

/-- The functions of libraries that the loop computes with. -/
structure NodeFormats (PeerId : Type) where
  /-- `PeerId::to_bytes` -/
  peerIdToBytes : PeerId → Bytes
  /-- whether a multiaddress has a `P2p` component -/
  hasP2p : Multiaddr → Bool
  /-- push a `P2p` component -/
  pushP2p : Multiaddr → PeerId → Multiaddr
  /-- `BlobId::from_str` -/
  parseBlobId : String → Except String BlobId

namespace NodeState

/-- The variables before the loop. -/
def initial (config : NodeConfig PeerId) : NodeState PeerId where
  pending _ := ∅
  peerAddresses := ∅
  bootstrapPeers := (config.bootstrapAddrs.map Prod.fst)
  bootstrapDone := false
  suiAddrPublished := false
  vaultPublished := false
  pendingAnnounces := []
  announceRetried := ∅

variable (self : NodeState PeerId)

/-- Keep a reply channel for an id. -/
def insert (slot : Slot) (id : RequestId) (channel : Channel) : NodeState PeerId :=
  { self with pending := Function.update self.pending slot ((self.pending slot).insert id channel) }

/-- Forget an id. -/
def remove (slot : Slot) (id : RequestId) : NodeState PeerId :=
  { self with pending := Function.update self.pending slot ((self.pending slot).erase id) }

/-- `if let Some(sender) = pending.remove(&id) { let _ = sender.send(msg); }`. -/
def settle (slot : Slot) (id : RequestId) (msg : Message PeerId) :
    NodeAction PeerId (NodeState PeerId) :=
  match (self.pending slot).lookup id with
  | some channel => do
      let _ ← callNode (.reply channel msg)
      pure (self.remove slot id)
  | none => pure self

end NodeState

/-- The first lines of `run`. -/
def startup (formats : NodeFormats PeerId) (config : NodeConfig PeerId) :
    NodeAction PeerId (ZingResult (NodeState PeerId)) := do
  let listening : Except String Unit ← callNode (.listenOn config.listenAddr)
  match listening with
  | .error e => pure (.error (.p2pNetwork e))
  | .ok () => do
      callAll (config.externalAddrs.map .addExternalAddress)
      callAll (config.bootstrapAddrs.map fun (peer, addr) => .addAddress peer addr)
      callAll (config.bootstrapAddrs.map fun (peer, addr) => .dial (formats.pushP2p addr peer))
      pure (.ok (.initial config))

/-! ### Records -/

/-- `b"zing-sui-addr\0"` and the peer. -/
def suiAddrKey (formats : NodeFormats PeerId) (peer : PeerId) : Bytes :=
  asciiBytes "zing-sui-addr" ++ [0] ++ formats.peerIdToBytes peer

/-- `b"zing-vault\0"` and the peer. -/
def vaultKey (formats : NodeFormats PeerId) (peer : PeerId) : Bytes :=
  asciiBytes "zing-vault" ++ [0] ++ formats.peerIdToBytes peer

/-- `get_record_value`. -/
def getRecordValue : GetRecordOk → Option Bytes32
  | .foundRecord value => if h : value.length = 32 then some ⟨value, h⟩ else none
  | .finishedWithNoAdditionalRecord => none

/-- `publish_sui_addr_record`. -/
def publishSuiAddrRecord (formats : NodeFormats PeerId) (config : NodeConfig PeerId)
    (suiAddress : Bytes32) : NodeAction PeerId Unit :=
  callAll [.putRecord (suiAddrKey formats config.localPeerId) suiAddress.toList]

/-- `publish_vault_record`. -/
def publishVaultRecord (formats : NodeFormats PeerId) (config : NodeConfig PeerId)
    (vaultId : Bytes32) : NodeAction PeerId Unit :=
  callAll [.putRecord (vaultKey formats config.localPeerId) vaultId.toList]

namespace NodeState

variable (self : NodeState PeerId) (formats : NodeFormats PeerId) (config : NodeConfig PeerId)

/-! ### Commands -/

/-- The loop over the addresses of `DialKadPeer`. -/
def dialAddresses (peer : PeerId) : List Multiaddr → Bool → NodeAction PeerId Bool
  | [], connected => pure connected
  | addr :: rest, connected => do
      let dialAddr := if formats.hasP2p addr then addr else formats.pushP2p addr peer
      let dialed : Except String Unit ← callNode (.dial dialAddr)
      dialAddresses peer rest (connected || dialed.isOk)

/-- Send a request, and keep the reply channel for its id. -/
def request (slot : Slot) (send : NodeAction PeerId RequestId) (channel : Channel) :
    NodeAction PeerId (NodeState PeerId) := do
  let id ← send
  pure (self.insert slot id channel)

variable [DecidableEq PeerId]

/-- `handle_command`. -/
def handleCommand (cmd : P2pCommand PeerId) (reply : Channel) :
    NodeAction PeerId (NodeState PeerId) :=
  match cmd with
  | .announceBlob blobId => do
      let _ ← callNode (.startProviding blobId.toList)
      let connected : List PeerId ← callNode .connectedPeers
      if connected.isEmpty then
        pure { self with pendingAnnounces := self.pendingAnnounces ++ [blobId] }
      else pure self
  | .findProviders blobId => self.request .finds (callNode (.getProviders blobId.toList)) reply
  | .fetchBlob peer blobId paymentTxDigest =>
      self.request .fetches (callNode (.sendBlobRequest peer ⟨blobId, 0, paymentTxDigest⟩)) reply
  | .fetchRange peer blobId offset length paymentTxDigest =>
      self.request .rangeFetches
        (callNode (.sendRangeRequest peer ⟨blobId, offset, length, paymentTxDigest⟩)) reply
  | .fetchSliver peer blobId sliverPairIndex axis =>
      self.request .sliverFetches
        (callNode (.sendSliverRequest peer ⟨blobId, sliverPairIndex, axis⟩)) reply
  | .dialKadPeer peer addrs => do
      let addresses := match addrs with
        | some (addr :: rest) => addr :: rest
        | _ => (self.peerAddresses.lookup peer).getD []
      let success ← dialAddresses formats peer addresses false
      callAll [.reply reply (.dialed success)]
      pure self
  | .queryPeerAddress target => do
      let connected : List PeerId ← callNode .connectedPeers
      match connected with
      | peer :: _ => self.request .addrQueries (callNode (.sendAddrRequest peer ⟨target⟩)) reply
      | [] => do
          callAll [.reply reply (.addresses [])]
          pure self
  | .addBootstrapPeer peer addr => do
      callAll [.addAddress peer addr]
      pure self
  | .bootstrap => do
      callAll [.bootstrap]
      pure self
  | .getConnectedPeers => do
      let connected : List PeerId ← callNode .connectedPeers
      callAll [.reply reply (.peers connected)]
      pure self
  | .dial peer addr => do
      callAll [.dial (formats.pushP2p addr peer)]
      pure self
  | .disconnect peer => do
      callAll [.disconnect peer]
      pure self
  | .getPeerSuiAddress peer =>
      self.request .suiAddrQueries (callNode (.getRecord (suiAddrKey formats peer))) reply
  | .getPeerVault peer =>
      self.request .vaultQueries (callNode (.getRecord (vaultKey formats peer))) reply

/-! ### Events of the behaviours -/

/-- The reply to a fetch. -/
def fetched (data : Option Bytes) : Message PeerId :=
  match data with
  | some data => .data (.ok data)
  | none => .data (.error (.blobNotFound "peer responded not found"))

/-- The events of the behaviours that fetch data: the map of the pending fetches, the answer
to an inbound request, and the data of a response. -/
def handleFetchEvent {Req Resp : Type} (slot : Slot)
    (serve : Req → ResponseChannel → NodeCall PeerId) (data : Resp → Option Bytes) :
    RequestResponseEvent PeerId Req Resp → NodeAction PeerId (NodeState PeerId)
  | .request request channel => do
      callAll [serve request channel]
      pure self
  | .response id response => self.settle slot id (fetched (data response))
  | .outboundFailure id _ error => self.settle slot id (.data (.error (.p2pNetwork error)))
  | .inboundFailure _ => pure self
  | .other => pure self

/-- The arm `ZingBehaviourEvent::Data`. -/
def handleDataEvent (event : RequestResponseEvent PeerId BlobRequest BlobResponse) :
    NodeAction PeerId (NodeState PeerId) :=
  self.handleFetchEvent .fetches .serveBlobRequest BlobResponse.data event

/-- The arm `ZingBehaviourEvent::Range`. -/
def handleRangeEvent (event : RequestResponseEvent PeerId RangeRequest RangeResponse) :
    NodeAction PeerId (NodeState PeerId) :=
  self.handleFetchEvent .rangeFetches .serveRangeRequest RangeResponse.data event

/-- The arm `ZingBehaviourEvent::Sliver`. -/
def handleSliverEvent (event : RequestResponseEvent PeerId SliverRequest SliverResponse) :
    NodeAction PeerId (NodeState PeerId) :=
  self.handleFetchEvent .sliverFetches .serveSliverRequest SliverResponse.data event

/-- The arm `ZingBehaviourEvent::Addr`. -/
def handleAddrEvent :
    RequestResponseEvent PeerId (AddrRequest PeerId) AddrResponse →
      NodeAction PeerId (NodeState PeerId)
  | .request request channel => do
      let addrs := (self.peerAddresses.lookup request.peerId).getD []
      callAll [.sendAddrResponse channel ⟨addrs⟩]
      pure self
  | .response id response => self.settle .addrQueries id (.addresses response.addresses)
  | .outboundFailure id _ _ => self.settle .addrQueries id (.addresses [])
  | .inboundFailure _ => pure self
  | .other => pure self

/-- The arm `kad::Event::OutboundQueryProgressed`. -/
def handleQueryResult (id : RequestId) :
    QueryResult PeerId → NodeAction PeerId (NodeState PeerId)
  | .getProviders (.ok (.foundProviders providers)) => self.settle .finds id (.peers providers)
  | .getProviders (.ok .finishedWithNoAdditionalRecord) => self.settle .finds id (.peers [])
  | .getProviders (.error _) => self.settle .finds id (.peers [])
  | .startProviding (.ok key) =>
      if h : key.length = 32 then
        let blobId : Bytes32 := ⟨key, h⟩
        if blobId ∈ self.announceRetried then pure self
        else do
          -- `announce_retried.insert(blob_id)` is true the first time
          callAll [.startProviding key]
          pure { self with announceRetried := Insert.insert blobId self.announceRetried }
      else pure self
  | .startProviding (.error _) => pure self
  | .bootstrap _ => pure self
  | .getRecord (.ok ok) => do
      let result := getRecordValue ok
      let self ← self.settle .suiAddrQueries id (.record result)
      self.settle .vaultQueries id (.record result)
  | .getRecord (.error _) => do
      let self ← self.settle .suiAddrQueries id (.record none)
      self.settle .vaultQueries id (.record none)
  | .putRecord _ => pure self
  | .other => pure self

/-- The arm `ZingBehaviourEvent::Kad`. -/
def handleKadEvent : KadEvent PeerId → NodeAction PeerId (NodeState PeerId)
  | .routingUpdated peer addresses =>
      if addresses.isEmpty then pure self
      else pure { self with peerAddresses := self.peerAddresses.insert peer addresses }
  | .outboundQueryProgressed id result => self.handleQueryResult id result
  | .other => pure self

/-- `handle_behaviour_event`. -/
def handleBehaviourEvent : BehaviourEvent PeerId → NodeAction PeerId (NodeState PeerId)
  | .kad event => self.handleKadEvent event
  | .data event => self.handleDataEvent event
  | .range event => self.handleRangeEvent event
  | .sliver event => self.handleSliverEvent event
  | .addr event => self.handleAddrEvent event
  | .identifyReceived peer listenAddrs =>
      if listenAddrs.isEmpty then pure self
      else do
        callAll (listenAddrs.map (.addAddress peer))
        pure { self with peerAddresses := self.peerAddresses.insert peer listenAddrs }
  | .identifyOther => pure self
  | .ping => pure self

/-! ### Events of the swarm -/

/-- Announce the blobs of some keys of the store again. -/
def reannounce (ids : List String) : NodeAction PeerId Unit :=
  callAll (ids.filterMap fun id =>
    (formats.parseBlobId id).toOption.map fun blobId => .startProviding blobId.bytes.toList)

/-- Publish the address record of the node, the first time. -/
def publishSuiAddrOnce : NodeAction PeerId (NodeState PeerId) :=
  if self.suiAddrPublished then pure self
  else
    match config.suiAddress with
    | some suiAddress => do
        publishSuiAddrRecord formats config suiAddress
        pure { self with suiAddrPublished := true }
    | none => pure self

/-- Publish the vault record of the node, the first time. -/
def publishVaultOnce : NodeAction PeerId (NodeState PeerId) :=
  if self.vaultPublished then pure self
  else
    match config.vaultObjectId with
    | some vaultId => do
        publishVaultRecord formats config vaultId
        pure { self with vaultPublished := true }
    | none => pure self

/-- A connection to a bootstrap peer: bootstrap the first time, and announce the stored blobs
after that. -/
def bootstrapConnected (peer : PeerId) : NodeAction PeerId (NodeState PeerId) :=
  if peer ∈ self.bootstrapPeers then
    if self.bootstrapDone then do
      let listed : Except String (List String) ← callNode .listBlobIds
      match listed with
      | .ok ids => do
          reannounce formats ids
          pure self
      | .error _ => pure self
    else do
      let started : Except String RequestId ← callNode .bootstrap
      match started with
      | .ok _ => pure { self with bootstrapDone := true }
      | .error _ => pure self
  else pure self

/-- Announce the queued blobs. -/
def flushAnnounces : NodeAction PeerId (NodeState PeerId) := do
  callAll (self.pendingAnnounces.map fun blobId => .startProviding blobId.toList)
  pure { self with pendingAnnounces := [] }

/-- The arm `SwarmEvent::ConnectionEstablished`. -/
def handleConnectionEstablished (peer : PeerId) (endpoint : ConnectedPoint) :
    NodeAction PeerId (NodeState PeerId) := do
  let peerAddr := match endpoint with
    | .dialer address => address
    | .listener sendBackAddr => sendBackAddr
  callAll [.addAddress peer peerAddr]
  let self ← self.publishSuiAddrOnce formats config
  let self ← self.publishVaultOnce formats config
  let self ← self.bootstrapConnected formats peer
  self.flushAnnounces

/-- `handle_swarm_event`. -/
def handleSwarmEvent : SwarmEvent PeerId → NodeAction PeerId (NodeState PeerId)
  | .behaviour event => self.handleBehaviourEvent event
  | .connectionEstablished peer endpoint =>
      self.handleConnectionEstablished formats config peer endpoint
  | .other => pure self

/-! ### The loop -/

/-- A tick of the timer. -/
def republish : NodeAction PeerId (NodeState PeerId) := do
  config.suiAddress.forM (publishSuiAddrRecord formats config)
  config.vaultObjectId.forM (publishVaultRecord formats config)
  pure self

/-- One turn of the loop. -/
def handle : NodeInput PeerId → NodeAction PeerId (NodeState PeerId)
  | .command cmd reply => self.handleCommand formats cmd reply
  | .event event => self.handleSwarmEvent formats config event
  | .tick => self.republish formats config

end NodeState

/-- A turn that has been made: what the loop took, and its calls. -/
structure Turn (PeerId : Type) where
  input : NodeInput PeerId
  calls : NodeCalls PeerId

/-- The loop after some turns. -/
structure NodeRun (PeerId : Type) where
  state : NodeState PeerId
  turns : List (Turn PeerId)

/-- The loop at its start, after the first lines of `run`. -/
def NodeRun.Initial (formats : NodeFormats PeerId) (config : NodeConfig PeerId)
    (run : NodeRun PeerId) : Prop :=
  run.turns = [] ∧ ∃ calls, (startup formats config).Runs calls (some (.ok run.state))

/-- One more turn, on any input and with any answers to its calls. -/
inductive NodeStep [DecidableEq PeerId] (formats : NodeFormats PeerId)
    (config : NodeConfig PeerId) : NodeRun PeerId → NodeRun PeerId → Prop
  | turn {s s' : NodeState PeerId} {turns : List (Turn PeerId)} {input : NodeInput PeerId}
      {calls : NodeCalls PeerId} :
      (s.handle formats config input).Runs calls (some s') →
        NodeStep formats config ⟨s, turns⟩ ⟨s', turns ++ [⟨input, calls⟩]⟩

/-- The runs of the loop. -/
def ReachableNode [DecidableEq PeerId] (formats : NodeFormats PeerId)
    (config : NodeConfig PeerId) : NodeRun PeerId → Prop :=
  Transition.Reachable (NodeRun.Initial formats config) (NodeStep formats config)

end ZingCdn
