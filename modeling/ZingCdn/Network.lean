import ZingCdn.AddrRoundTrip
import ZingCdn.BlobStore
import ZingCdn.Library.Parties
import ZingCdn.LongPayloads
import ZingCdn.RangeServing
import ZingCdn.Replies
import ZingCdn.TurnCalls

/-!
# A Network of Nodes

Any number of nodes, each running the loop of `ZingCdn.P2pNode` over a store of its own, and
between them the swarm: the frames of the four request-response protocols in flight, the
records put into the DHT, and who was said to provide which key. Frames are the bytes that the
codecs write, and what arrives is what they read. The swarm may lose a packet, delay it, or
deliver it any number of times.

Some of the peers need not run this program. They may send any request, answer a request that
was sent to them with any bytes, put any record under any key, and name anybody as a provider.
What they cannot do is speak for somebody else: the swarm authenticates its connections, so a
request or a response comes from the peer that it says it is from.

The stores change between turns in any way, because other tasks put, delete and evict blobs.

## Main definitions

* `Deployment.Arrives`: what a node may take off the wire.
* `Deployment.transmit`: what the calls of a turn put on it.
* `Deployment.Forges`: what a peer may put there that does not run this program.
* `Deployment.Reachable`: the states that some interleaving of the nodes leads to.
-/

open Program Program.Prog

namespace ZingCdn

variable {PeerId : Type}

/-! ### The request-response protocols -/

/-- The four protocols. -/
inductive WireProtocol
  | blob
  | range
  | sliver
  | addr
deriving DecidableEq

namespace WireProtocol

/-- The requests of a protocol. -/
def Request (PeerId : Type) : WireProtocol → Type
  | .blob => BlobRequest
  | .range => RangeRequest
  | .sliver => SliverRequest
  | .addr => AddrRequest PeerId

/-- The responses of a protocol. -/
def Response : WireProtocol → Type
  | .blob => BlobResponse
  | .range => RangeResponse
  | .sliver => SliverResponse
  | .addr => AddrResponse

/-- The behaviour of a protocol. -/
def idSpace : WireProtocol → IdSpace
  | .blob => .data
  | .range => .range
  | .sliver => .sliver
  | .addr => .addr

variable (formats : AddrFormats PeerId)

/-- The codec of a protocol. -/
def writeRequest : (p : WireProtocol) → p.Request PeerId → Bytes
  | .blob, req => BinaryProtocolCodec.writeRequest req
  | .range, req => RangeProtocolCodec.writeRequest req
  | .sliver, req => SliverProtocolCodec.writeRequest req
  | .addr, req => AddrProtocolCodec.writeRequest formats req

@[inherit_doc writeRequest]
def readRequest : (p : WireProtocol) → Decoder (p.Request PeerId)
  | .blob => BinaryProtocolCodec.readRequest
  | .range => RangeProtocolCodec.readRequest
  | .sliver => SliverProtocolCodec.readRequest
  | .addr => AddrProtocolCodec.readRequest formats

@[inherit_doc writeRequest]
def writeResponse (overflowChecks : Bool) : (p : WireProtocol) → p.Response → Option Bytes
  | .blob, res => BinaryProtocolCodec.writeResponse overflowChecks res
  | .range, res => RangeProtocolCodec.writeResponse overflowChecks res
  | .sliver, res => SliverProtocolCodec.writeResponse overflowChecks res
  | .addr, res => some (AddrProtocolCodec.writeResponse formats res)

@[inherit_doc writeRequest]
def readResponse : (p : WireProtocol) → Decoder p.Response
  | .blob => BinaryProtocolCodec.readResponse
  | .range => RangeProtocolCodec.readResponse
  | .sliver => SliverProtocolCodec.readResponse
  | .addr => AddrProtocolCodec.readResponse formats

/-- A request that is sent, and its id. -/
def sendEvent : (p : WireProtocol) → PeerId → p.Request PeerId → RequestId →
    Event (@NodeCall.Ans PeerId)
  | .blob, peer, req, id => ⟨.sendBlobRequest peer req, id⟩
  | .range, peer, req, id => ⟨.sendRangeRequest peer req, id⟩
  | .sliver, peer, req, id => ⟨.sendSliverRequest peer req, id⟩
  | .addr, peer, req, id => ⟨.sendAddrRequest peer req, id⟩

/-- The event of an inbound request. -/
def requestInput : (p : WireProtocol) → p.Request PeerId → ResponseChannel → NodeInput PeerId
  | .blob, req, channel => .event (.behaviour (.data (.request req channel)))
  | .range, req, channel => .event (.behaviour (.range (.request req channel)))
  | .sliver, req, channel => .event (.behaviour (.sliver (.request req channel)))
  | .addr, req, channel => .event (.behaviour (.addr (.request req channel)))

/-- The event of a response. -/
def responseInput : (p : WireProtocol) → RequestId → p.Response → NodeInput PeerId
  | .blob, id, res => .event (.behaviour (.data (.response id res)))
  | .range, id, res => .event (.behaviour (.range (.response id res)))
  | .sliver, id, res => .event (.behaviour (.sliver (.response id res)))
  | .addr, id, res => .event (.behaviour (.addr (.response id res)))

end WireProtocol

/-! ### Packets -/

/-- What is in flight. -/
inductive Packet (PeerId : Type)
  | request (p : WireProtocol) (requester responder : PeerId) (id : RequestId) (bytes : Bytes)
  | response (p : WireProtocol) (requester responder : PeerId) (id : RequestId) (bytes : Bytes)
  | record (publisher : PeerId) (key value : Bytes)
  | provider (claimant provider : PeerId) (key : Bytes)
deriving DecidableEq

/-- What the nodes are deployed with, and which of the peers run this program. -/
structure Deployment (PeerId : Type) where
  formats : NodeFormats PeerId
  addrFormats : AddrFormats PeerId
  lib : Externals PeerId
  overflowChecks : Bool
  config : PeerId → NodeConfig PeerId
  honest : PeerId → Prop
  localPeerId_eq : ∀ n, (config n).localPeerId = n

/-- The inbound requests that can be answered: who sent them, and under which id. -/
abbrev Streams (PeerId : Type) : Type :=
  WireProtocol → ResponseChannel → Option (PeerId × RequestId)

/-- A node: its loop, what its store is and was, the counter of its handlers, and the inbound
requests. -/
structure Host (PeerId : Type) where
  run : NodeRun PeerId
  db : BlobStore
  past : List BlobStore
  requestCounter : ℕ
  streams : Streams PeerId

/-- What the store of a node has been so far. -/
def Host.stores (host : Host PeerId) : List BlobStore := host.db :: host.past

/-- The input comes off the wire: a request, a response, a record or providers. -/
def NodeInput.offWire : NodeInput PeerId → Bool
  | .event (.behaviour (.data (.request ..))) | .event (.behaviour (.data (.response ..)))
  | .event (.behaviour (.range (.request ..))) | .event (.behaviour (.range (.response ..)))
  | .event (.behaviour (.sliver (.request ..))) | .event (.behaviour (.sliver (.response ..)))
  | .event (.behaviour (.addr (.request ..))) | .event (.behaviour (.addr (.response ..))) => true
  | .event (.behaviour (.kad (.outboundQueryProgressed _ (.getRecord (.ok (.foundRecord _)))))) =>
      true
  | .event (.behaviour (.kad (.outboundQueryProgressed _
      (.getProviders (.ok (.foundProviders _)))))) => true
  | _ => false

/-- The calls of some turns, with their answers. -/
def callsIn (turns : List (Turn PeerId)) : NodeCalls PeerId := turns.flatMap Turn.calls

namespace Deployment

variable (dep : Deployment PeerId)

/-! ### Arrivals -/

/-- What a node may take, by what is on the wire and what it has asked for. A request opens a
stream for its response. -/
inductive Arrives (self : PeerId) (wire : List (Packet PeerId)) (turns : List (Turn PeerId))
    (streams : Streams PeerId) : NodeInput PeerId → Streams PeerId → Prop
  | request {p : WireProtocol} {requester : PeerId} {id : RequestId} {bytes rest : Bytes}
      {req : p.Request PeerId} {channel : ResponseChannel} :
      .request p requester self id bytes ∈ wire →
      p.readRequest dep.addrFormats bytes = .ok (req, rest) →
      streams p channel = none →
      Arrives self wire turns streams (p.requestInput req channel)
        (Function.update streams p (Function.update (streams p) channel (some (requester, id))))
  | response {p : WireProtocol} {responder : PeerId} {id : RequestId} {bytes rest : Bytes}
      {res : p.Response} :
      .response p self responder id bytes ∈ wire →
      p.readResponse dep.addrFormats bytes = .ok (res, rest) →
      Arrives self wire turns streams (p.responseInput id res) streams
  | record {id : RequestId} {publisher : PeerId} {key value : Bytes} :
      ⟨.getRecord key, id⟩ ∈ callsIn turns → .record publisher key value ∈ wire →
      Arrives self wire turns streams (.event (.behaviour (.kad (.outboundQueryProgressed id
        (.getRecord (.ok (.foundRecord value))))))) streams
  | providers {id : RequestId} {key : Bytes} {providers : List PeerId} :
      ⟨.getProviders key, id⟩ ∈ callsIn turns →
      (∀ provider ∈ providers, ∃ claimant, .provider claimant provider key ∈ wire) →
      Arrives self wire turns streams (.event (.behaviour (.kad (.outboundQueryProgressed id
        (.getProviders (.ok (.foundProviders providers))))))) streams
  | other {input : NodeInput PeerId} : input.offWire = false →
      Arrives self wire turns streams input streams

/-! ### Sending -/

/-- The response to the request of a stream, if there is one and it can be written. -/
def respond (self : PeerId) (streams : Streams PeerId) (p : WireProtocol)
    (channel : ResponseChannel) (res : p.Response) : List (Packet PeerId) :=
  match streams p channel, p.writeResponse dep.addrFormats dep.overflowChecks res with
  | some (requester, id), some bytes => [.response p requester self id bytes]
  | _, _ => []

/-- What a call puts on the wire, and the request counter after it. Inbound requests are
answered by the handlers, from a read of the store; nothing is returned where a handler
panics. -/
def packets (self : PeerId) (read : StoreRead) (streams : Streams PeerId) (counter : ℕ) :
    Event (@NodeCall.Ans PeerId) → Option (List (Packet PeerId) × ℕ)
  | ⟨.sendBlobRequest peer req, id⟩ =>
      some ([.request .blob self peer id (BinaryProtocolCodec.writeRequest req)], counter)
  | ⟨.sendRangeRequest peer req, id⟩ =>
      some ([.request .range self peer id (RangeProtocolCodec.writeRequest req)], counter)
  | ⟨.sendSliverRequest peer req, id⟩ =>
      some ([.request .sliver self peer id (SliverProtocolCodec.writeRequest req)], counter)
  | ⟨.sendAddrRequest peer req, id⟩ =>
      some ([.request .addr self peer id (AddrProtocolCodec.writeRequest dep.addrFormats req)],
        counter)
  | ⟨.serveBlobRequest req channel, _⟩ =>
      let (res, counter) := handleInboundRequest dep.lib read counter req
      some (dep.respond self streams .blob channel res, counter)
  | ⟨.serveRangeRequest req channel, _⟩ => do
      let (res, counter) ←
        handleInboundRangeRequestIn dep.overflowChecks dep.lib read counter req
      pure (dep.respond self streams .range channel res, counter)
  | ⟨.serveSliverRequest req channel, _⟩ =>
      some (dep.respond self streams .sliver channel (handleInboundSliverRequest dep.lib read req),
        counter)
  | ⟨.sendAddrResponse channel res, _⟩ =>
      some (dep.respond self streams .addr channel res, counter)
  | ⟨.putRecord key value, _⟩ => some ([.record self key value], counter)
  | ⟨.startProviding key, _⟩ => some ([.provider self self key], counter)
  | _ => some ([], counter)

/-- What the calls of a turn put on the wire. -/
def transmit (self : PeerId) (read : StoreRead) (streams : Streams PeerId) :
    ℕ → NodeCalls PeerId → Option (List (Packet PeerId) × ℕ)
  | counter, [] => some ([], counter)
  | counter, ev :: rest => do
      let (put, counter) ← dep.packets self read streams counter ev
      let (more, counter) ← transmit self read streams counter rest
      pure (put ++ more, counter)

/-- A read of the store gives what it holds, or fails. -/
def Reads (db : BlobStore) (read : StoreRead) : Prop :=
  ∀ key, read key = .ok (db.get key) ∨ ∃ e, read key = .error e

/-! ### The network -/

/-- A turn of a node, or a change to its store. -/
inductive HostStep [DecidableEq PeerId] (self : PeerId) (wire : List (Packet PeerId))
    (host : Host PeerId) : List (Packet PeerId) → Host PeerId → Prop
  | turn {input : NodeInput PeerId} {calls : NodeCalls PeerId} {s : NodeState PeerId}
      {streams : Streams PeerId} {read : StoreRead} {put : List (Packet PeerId)} {counter : ℕ} :
      dep.honest self →
      dep.Arrives self wire host.run.turns host.streams input streams →
      (host.run.state.handle dep.formats (dep.config self) input).Runs calls (some s) →
      Reads host.db read →
      dep.transmit self read streams host.requestCounter calls = some (put, counter) →
      HostStep self wire host put
        ⟨⟨s, host.run.turns ++ [⟨input, calls⟩]⟩, host.db, host.past, counter, streams⟩
  | store (db : BlobStore) :
      HostStep self wire host [] { host with db := db, past := host.stores }

/-- A node at its start. -/
def HostInitial (self : PeerId) (host : Host PeerId) : Prop :=
  host.run.Initial dep.formats (dep.config self) ∧ host.past = [] ∧
    host.streams = fun _ _ => none

/-- What a peer that does not run this program may put on the wire. -/
def Forges (wire : List (Packet PeerId)) : Packet PeerId → Prop
  | .request _ requester _ _ _ => ¬ dep.honest requester
  | .response p requester responder id _ =>
      ¬ dep.honest responder ∧ ∃ question, .request p requester responder id question ∈ wire
  | .record publisher _ _ => ¬ dep.honest publisher
  | .provider claimant _ _ => ¬ dep.honest claimant

/-- The nodes and the others. -/
def protocol [DecidableEq PeerId] : Parties.Protocol PeerId (Host PeerId) (Packet PeerId) where
  init := dep.HostInitial
  step := dep.HostStep
  forge := dep.Forges

/-- The states of the network that some interleaving leads to. -/
abbrev Reachable [DecidableEq PeerId] :
    Parties.Network PeerId (Host PeerId) (Packet PeerId) → Prop :=
  Parties.Reachable dep.protocol

/-! ### What arrives -/

section Arrives

variable {dep : Deployment PeerId} {self : PeerId} {wire more : List (Packet PeerId)}
  {turns : List (Turn PeerId)} {streams streams' : Streams PeerId} {input : NodeInput PeerId}

theorem Arrives.grow (h : dep.Arrives self wire turns streams input streams') :
    dep.Arrives self (wire ++ more) turns streams input streams' := by
  cases h with
  | request hmem hread hfree => exact .request (List.mem_append_left _ hmem) hread hfree
  | response hmem hread => exact .response (List.mem_append_left _ hmem) hread
  | record hid hmem => exact .record hid (List.mem_append_left _ hmem)
  | providers hid hmem =>
      refine .providers hid fun provider hprovider => ?_
      obtain ⟨claimant, hclaim⟩ := hmem provider hprovider
      exact ⟨claimant, List.mem_append_left _ hclaim⟩
  | other hother => exact .other hother

/-- A request is one that is on the wire, and it can be answered. -/
theorem Arrives.of_request {p : WireProtocol} {req : p.Request PeerId} {channel : ResponseChannel}
    (h : dep.Arrives self wire turns streams (p.requestInput req channel) streams') :
    ∃ requester id bytes rest, .request p requester self id bytes ∈ wire ∧
      p.readRequest dep.addrFormats bytes = .ok (req, rest) ∧
      streams' p channel = some (requester, id) := by
  generalize hinput : p.requestInput req channel = input at h
  cases h with
  | @request p' requester id bytes rest req' channel' hmem hread hfree =>
      cases p <;> cases p' <;> cases hinput <;>
        exact ⟨requester, id, bytes, rest, hmem, hread, by simp⟩
  | @response p' => cases p <;> cases p' <;> cases hinput
  | record | providers => cases p <;> cases hinput
  | other hother => cases p <;> cases hinput <;> cases hother

/-- A response is one that is on the wire. -/
theorem Arrives.of_response {p : WireProtocol} {id : RequestId} {res : p.Response}
    (h : dep.Arrives self wire turns streams (p.responseInput id res) streams') :
    ∃ responder bytes rest, .response p self responder id bytes ∈ wire ∧
      p.readResponse dep.addrFormats bytes = .ok (res, rest) := by
  generalize hinput : p.responseInput id res = input at h
  cases h with
  | @request p' => cases p <;> cases p' <;> cases hinput
  | @response p' responder id' bytes rest res' hmem hread =>
      cases p <;> cases p' <;> cases hinput <;> exact ⟨responder, bytes, rest, hmem, hread⟩
  | record | providers => cases p <;> cases hinput
  | other hother => cases p <;> cases hinput <;> cases hother

/-- A record is one that was put under a key that was asked for. -/
theorem Arrives.of_record {id : RequestId} {value : Bytes}
    (h : dep.Arrives self wire turns streams (.event (.behaviour (.kad (.outboundQueryProgressed id
      (.getRecord (.ok (.foundRecord value))))))) streams') :
    ∃ publisher key, ⟨.getRecord key, id⟩ ∈ callsIn turns ∧ .record publisher key value ∈ wire := by
  generalize hinput : NodeInput.event (.behaviour (.kad (.outboundQueryProgressed id
    (.getRecord (.ok (.foundRecord value)))))) = input at h
  cases h with
  | @request p' | @response p' => cases p' <;> cases hinput
  | @record id publisher key value hid hmem =>
      cases hinput
      exact ⟨publisher, key, hid, hmem⟩
  | providers => cases hinput
  | other hother => cases hinput; cases hother

/-- Providers are peers that somebody named as providers of a key that was asked for. -/
theorem Arrives.of_providers {id : RequestId} {providers : List PeerId}
    (h : dep.Arrives self wire turns streams (.event (.behaviour (.kad (.outboundQueryProgressed id
      (.getProviders (.ok (.foundProviders providers))))))) streams') :
    ∃ key, ⟨.getProviders key, id⟩ ∈ callsIn turns ∧
      ∀ provider ∈ providers, ∃ claimant, .provider claimant provider key ∈ wire := by
  generalize hinput : NodeInput.event (.behaviour (.kad (.outboundQueryProgressed id
    (.getProviders (.ok (.foundProviders providers)))))) = input at h
  cases h with
  | @request p' | @response p' => cases p' <;> cases hinput
  | record => cases hinput
  | @providers id key providers hid hmem =>
      cases hinput
      exact ⟨key, hid, hmem⟩
  | other hother => cases hinput; cases hother

end Arrives

/-! ### What is sent -/

section Sent

variable {dep : Deployment PeerId} {self : PeerId} {read : StoreRead} {streams : Streams PeerId}
  {counter counter' : ℕ}

theorem mem_respond_iff {p : WireProtocol} {channel : ResponseChannel} {res : p.Response}
    {packet : Packet PeerId} : packet ∈ dep.respond self streams p channel res ↔
      ∃ requester id bytes, streams p channel = some (requester, id) ∧
        p.writeResponse dep.addrFormats dep.overflowChecks res = some bytes ∧
        packet = .response p requester self id bytes := by
  rw [respond]
  rcases hstream : streams p channel with _ | ⟨requester, id⟩
  · simp
  · rcases hbytes : p.writeResponse dep.addrFormats dep.overflowChecks res with _ | bytes
    · simp
    · simp

/-- The response to a call that answers an inbound request. -/
inductive Serves (dep : Deployment PeerId) (read : StoreRead) (counter : ℕ) :
    NodeCall PeerId → (p : WireProtocol) → ResponseChannel → p.Response → Prop
  | blob {req : BlobRequest} {channel : ResponseChannel} :
      Serves dep read counter (.serveBlobRequest req channel) .blob channel
        (handleInboundRequest dep.lib read counter req).1
  | range {req : RangeRequest} {channel : ResponseChannel} {res : RangeResponse} {next : ℕ} :
      handleInboundRangeRequestIn dep.overflowChecks dep.lib read counter req = some (res, next) →
      Serves dep read counter (.serveRangeRequest req channel) .range channel res
  | sliver {req : SliverRequest} {channel : ResponseChannel} :
      Serves dep read counter (.serveSliverRequest req channel) .sliver channel
        (handleInboundSliverRequest dep.lib read req)
  | addr {channel : ResponseChannel} {res : AddrResponse} :
      Serves dep read counter (.sendAddrResponse channel res) .addr channel res

/-- The packets of one call after another. -/
theorem transmit_cons {ev : Event (@NodeCall.Ans PeerId)} {rest : NodeCalls PeerId}
    {put more : List (Packet PeerId)} {mid : ℕ}
    (hput : dep.packets self read streams counter ev = some (put, mid))
    (hmore : dep.transmit self read streams mid rest = some (more, counter')) :
    dep.transmit self read streams counter (ev :: rest) = some (put ++ more, counter') := by
  simp only [transmit, hput, hmore, Option.bind_eq_bind, Option.bind_some, Option.pure_def]

/-- What a turn puts on the wire is put there by one of its calls. -/
theorem exists_of_mem_transmit {calls : NodeCalls PeerId} {put : List (Packet PeerId)}
    (h : dep.transmit self read streams counter calls = some (put, counter'))
    {packet : Packet PeerId} (hpacket : packet ∈ put) :
    ∃ ev ∈ calls, ∃ before after sent, dep.packets self read streams before ev
      = some (sent, after) ∧ packet ∈ sent := by
  induction calls generalizing counter put with
  | nil =>
      obtain ⟨rfl, -⟩ := Prod.mk.inj (Option.some.inj h)
      cases hpacket
  | cons ev rest ih =>
      simp only [transmit, Option.bind_eq_bind, Option.bind_eq_some_iff,
        Option.pure_def, Option.some.injEq, Prod.mk.injEq, Prod.exists] at h
      obtain ⟨first, mid, hfirst, more, last, hrest, rfl, rfl⟩ := h
      rcases List.mem_append.mp hpacket with hpacket | hpacket
      · exact ⟨ev, List.mem_cons_self, counter, mid, first, hfirst, hpacket⟩
      · obtain ⟨ev', hev', hsent⟩ := ih hrest hpacket
        exact ⟨ev', List.mem_cons_of_mem _ hev', hsent⟩

/-- What comes of one call, by what the packet says. -/
theorem packets_cases {ev : Event (@NodeCall.Ans PeerId)} {sent : List (Packet PeerId)}
    (h : dep.packets self read streams counter ev = some (sent, counter'))
    {packet : Packet PeerId} (hpacket : packet ∈ sent) :
    (∃ (p : WireProtocol) (peer : PeerId) (req : p.Request PeerId) (id : RequestId),
      ev = p.sendEvent peer req id ∧
      packet = .request p self peer id (p.writeRequest dep.addrFormats req)) ∨
    (∃ (p : WireProtocol) (channel : ResponseChannel) (res : p.Response),
      dep.Serves read counter ev.1 p channel res ∧ packet ∈ dep.respond self streams p channel res) ∨
    (∃ key value, ev.1 = .putRecord key value ∧ packet = .record self key value) ∨
    (∃ key, ev.1 = .startProviding key ∧ packet = .provider self self key) := by
  rcases ev with ⟨c, r⟩
  cases c with
  | sendBlobRequest peer req =>
      obtain ⟨rfl, -⟩ := Prod.mk.inj (Option.some.inj h)
      exact .inl ⟨.blob, peer, req, r, rfl, List.mem_singleton.mp hpacket⟩
  | sendRangeRequest peer req =>
      obtain ⟨rfl, -⟩ := Prod.mk.inj (Option.some.inj h)
      exact .inl ⟨.range, peer, req, r, rfl, List.mem_singleton.mp hpacket⟩
  | sendSliverRequest peer req =>
      obtain ⟨rfl, -⟩ := Prod.mk.inj (Option.some.inj h)
      exact .inl ⟨.sliver, peer, req, r, rfl, List.mem_singleton.mp hpacket⟩
  | sendAddrRequest peer req =>
      obtain ⟨rfl, -⟩ := Prod.mk.inj (Option.some.inj h)
      exact .inl ⟨.addr, peer, req, r, rfl, List.mem_singleton.mp hpacket⟩
  | serveBlobRequest req channel =>
      obtain ⟨rfl, -⟩ := Prod.mk.inj (Option.some.inj h)
      exact .inr (.inl ⟨.blob, channel, _, .blob, hpacket⟩)
  | serveRangeRequest req channel =>
      obtain ⟨⟨res, next⟩, hserve, heq⟩ := Option.bind_eq_some_iff.mp h
      obtain ⟨rfl, -⟩ := Prod.mk.inj (Option.some.inj heq)
      exact .inr (.inl ⟨.range, channel, res, .range hserve, hpacket⟩)
  | serveSliverRequest req channel =>
      obtain ⟨rfl, -⟩ := Prod.mk.inj (Option.some.inj h)
      exact .inr (.inl ⟨.sliver, channel, _, .sliver, hpacket⟩)
  | sendAddrResponse channel res =>
      obtain ⟨rfl, -⟩ := Prod.mk.inj (Option.some.inj h)
      exact .inr (.inl ⟨.addr, channel, res, .addr, hpacket⟩)
  | putRecord key value =>
      obtain ⟨rfl, -⟩ := Prod.mk.inj (Option.some.inj h)
      exact .inr (.inr (.inl ⟨key, value, rfl, List.mem_singleton.mp hpacket⟩))
  | startProviding key =>
      obtain ⟨rfl, -⟩ := Prod.mk.inj (Option.some.inj h)
      exact .inr (.inr (.inr ⟨key, rfl, List.mem_singleton.mp hpacket⟩))
  | _ =>
      obtain ⟨rfl, -⟩ := Prod.mk.inj (Option.some.inj h)
      cases hpacket

end Sent

end Deployment

end ZingCdn
