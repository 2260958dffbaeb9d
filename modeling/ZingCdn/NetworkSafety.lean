import ZingCdn.Network

/-!
# What a Network of Nodes Guarantees

Whatever the interleaving, the delays and the peers that do not run this program: a node that
runs it is told what the peer it asked had to say. The data it gets for a fetch is what the
asked peer stored under the blob, and the range it gets is the range it asked for.

## Main results

* `Deployment.answer_of_response`: a response answers the request that was sent under its id.
* `Deployment.answered_of_reply`: what a command is told is that answer, or a failure.
* `Deployment.fetched_genuine`, `Deployment.range_genuine`: what a fetch gets.
-/

open Program Program.Prog

namespace ZingCdn

variable {PeerId : Type} [DecidableEq PeerId]

namespace Deployment

/-! ### What is on the wire was sent -/

/-- A response that a node may give to a request, from what its store or its loop has been so
far. -/
inductive Answers (dep : Deployment PeerId) (self : PeerId) (host : Host PeerId) :
    (p : WireProtocol) → p.Request PeerId → p.Response → Prop
  | blob {db : BlobStore} {read : StoreRead} {counter : ℕ} {req : BlobRequest} :
      db ∈ host.stores → Reads db read →
      Answers dep self host .blob req (handleInboundRequest dep.lib read counter req).1
  | range {db : BlobStore} {read : StoreRead} {counter next : ℕ} {req : RangeRequest}
      {res : RangeResponse} : db ∈ host.stores → Reads db read →
      handleInboundRangeRequestIn dep.overflowChecks dep.lib read counter req = some (res, next) →
      Answers dep self host .range req res
  | sliver {read : StoreRead} {req : SliverRequest} :
      Answers dep self host .sliver req (handleInboundSliverRequest dep.lib read req)
  | addr {s : NodeState PeerId} {turns : List (Turn PeerId)} {req : AddrRequest PeerId} :
      turns <+: host.run.turns → ReachableNode dep.formats (dep.config self) ⟨s, turns⟩ →
      Answers dep self host .addr req ⟨(s.peerAddresses.lookup req.peerId).getD []⟩

variable (dep : Deployment PeerId)

/-- What a node that runs this program has put on the wire. -/
def Sent (self : PeerId) (wire : List (Packet PeerId)) (host : Host PeerId) :
    Packet PeerId → Prop
  | .request p requester responder id bytes =>
      requester = self ∧ ∃ turn ∈ host.run.turns, ∃ req : p.Request PeerId,
        p.sendEvent responder req id ∈ turn.calls ∧ bytes = p.writeRequest dep.addrFormats req
  | .response p requester responder id bytes =>
      responder = self ∧ ∃ question rest req res,
        .request p requester self id question ∈ wire ∧
        p.readRequest dep.addrFormats question = .ok (req, rest) ∧
        dep.Answers self host p req res ∧
        p.writeResponse dep.addrFormats dep.overflowChecks res = some bytes
  | .record publisher key value =>
      publisher = self ∧ (key, value) ∈ (dep.config self).records dep.formats
  | .provider claimant provider key =>
      claimant = self ∧ provider = self ∧
        ∃ turn ∈ host.run.turns, .startProviding key ∈ made turn.calls

variable {dep} {self : PeerId} {wire more put : List (Packet PeerId)} {host host' : Host PeerId}
  {packet : Packet PeerId}

/-- The past of a node only grows. -/
theorem HostStep.grows (h : dep.HostStep self wire host put host') :
    host.stores ⊆ host'.stores ∧ host.run.turns <+: host'.run.turns := by
  cases h with
  | turn => exact ⟨List.Subset.refl _, List.prefix_append _ _⟩
  | store db => exact ⟨List.subset_cons_self _ _, List.prefix_refl _⟩

/-- An answer of a node stays one. -/
theorem Answers.keep {p : WireProtocol} {req : p.Request PeerId} {res : p.Response}
    (h : dep.Answers self host p req res) (hstep : dep.HostStep self wire host put host') :
    dep.Answers self host' p req res := by
  obtain ⟨hstores, hturns⟩ := hstep.grows
  cases h with
  | blob hdb hread => exact .blob (hstores hdb) hread
  | range hdb hread hserve => exact .range (hstores hdb) hread hserve
  | sliver => exact .sliver
  | addr hearlier hreach => exact .addr (hearlier.trans hturns) hreach

/-- What was sent stays sent when more is put on the wire. -/
theorem Sent.grow (h : dep.Sent self wire host packet) :
    dep.Sent self (wire ++ more) host packet := by
  cases packet with
  | response p requester responder id bytes =>
      obtain ⟨rfl, question, rest, req, res, hmem, hanswer⟩ := h
      exact ⟨rfl, question, rest, req, res, List.mem_append_left _ hmem, hanswer⟩
  | request | record | provider => exact h

/-- It does when the sender takes a step. -/
theorem Sent.keep (h : dep.Sent self wire host packet)
    (hstep : dep.HostStep self wire host put host') : dep.Sent self wire host' packet := by
  obtain ⟨-, hturns⟩ := hstep.grows
  cases packet with
  | request =>
      obtain ⟨rfl, turn, hturn, hsent⟩ := h
      exact ⟨rfl, turn, hturns.subset hturn, hsent⟩
  | response =>
      obtain ⟨rfl, question, rest, req, res, hmem, hread, hanswer, hwrite⟩ := h
      exact ⟨rfl, question, rest, req, res, hmem, hread, hanswer.keep hstep, hwrite⟩
  | record => exact h
  | provider =>
      obtain ⟨rfl, rfl, turn, hturn, hmade⟩ := h
      exact ⟨rfl, rfl, turn, hturns.subset hturn, hmade⟩

/-- An inbound request is answered in the turn that takes it. -/
theorem Serves.answers {s : NodeState PeerId} {turns : List (Turn PeerId)}
    {input : NodeInput PeerId} {read : StoreRead} {counter : ℕ} {c : NodeCall PeerId}
    {p : WireProtocol} {channel : ResponseChannel} {res : p.Response} {db : BlobStore}
    (h : dep.Serves read counter c p channel res)
    (hadmits : s.Admits dep.formats (dep.config self) input c) (hdb : db ∈ host.stores)
    (hread : Reads db read) (hearlier : turns <+: host.run.turns)
    (hreach : ReachableNode dep.formats (dep.config self) ⟨s, turns⟩) :
    ∃ req, input = p.requestInput req channel ∧ dep.Answers self host p req res := by
  cases h with
  | blob => exact ⟨_, hadmits, .blob hdb hread⟩
  | range hserve => exact ⟨_, hadmits, .range hdb hread hserve⟩
  | sliver => exact ⟨_, hadmits, .sliver⟩
  | addr =>
      obtain ⟨req, hinput, rfl⟩ := hadmits
      exact ⟨req, hinput, .addr hearlier hreach⟩

/-- **What a step puts on the wire** the node has sent. -/
theorem HostStep.sent (h : dep.HostStep self wire host put host')
    (hreach : ReachableNode dep.formats (dep.config self) host.run) (hpacket : packet ∈ put) :
    dep.Sent self wire host' packet := by
  obtain ⟨hstores, hturns⟩ := h.grows
  cases h with
  | store db => cases hpacket
  | turn hhonest harrives hrun hreads htransmit =>
      obtain ⟨ev, hev, counter, next, sent, hsent, hmem⟩ :=
        exists_of_mem_transmit htransmit hpacket
      have hadmits := (NodeState.within_handle _).of_runs hrun ev hev
      have hlast : ∀ {turn : Turn PeerId}, turn ∈ host.run.turns ++ [turn] :=
        List.mem_append_right _ List.mem_cons_self
      rcases packets_cases hsent hmem with ⟨p, peer, req, id, rfl, rfl⟩ |
        ⟨p, channel, res, hserves, hrespond⟩ | ⟨key, value, hput, rfl⟩ | ⟨key, hprovide, rfl⟩
      · exact ⟨rfl, _, hlast, req, hev, rfl⟩
      · obtain ⟨requester, id, bytes, hstream, hbytes, rfl⟩ := mem_respond_iff.mp hrespond
        obtain ⟨req, rfl, hanswers⟩ := hserves.answers hadmits
          (hstores List.mem_cons_self) hreads hturns hreach
        obtain ⟨_, _, question, rest, hquestion, hread, hopened⟩ := harrives.of_request
        obtain ⟨rfl, rfl⟩ := Prod.mk.inj (Option.some.inj (hstream.symm.trans hopened))
        exact ⟨rfl, question, rest, req, res, hquestion, hread, hanswers, hbytes⟩
      · rw [hput] at hadmits
        exact ⟨rfl, hadmits.1⟩
      · exact ⟨rfl, rfl, _, hlast, hprovide ▸ List.mem_map_of_mem hev⟩

/-- A node on its own is a run of the loop. -/
theorem reachable_run (h : Parties.Run dep.protocol self host) :
    ReachableNode dep.formats (dep.config self) host.run := by
  refine Transition.Reachable.invariant
    (fun host => ReachableNode dep.formats (dep.config self) host.run) ?_ ?_ h
  · rintro host ⟨hstart, -, -⟩
    exact .of_init hstart
  · rintro host host' hreach ⟨wire, put, hstep⟩
    cases hstep with
    | turn _ _ hrun => exact hreach.snoc (.turn hrun)
    | store db => exact hreach

variable {net : Parties.Network PeerId (Host PeerId) (Packet PeerId)}

/-- **What is on the wire** was sent by a node, or forged. -/
theorem sent_of_wire (hnet : dep.Reachable net) (hpacket : packet ∈ net.wire) :
    (∃ n, dep.Sent n net.wire (net.locals n) packet) ∨
      ∃ seen, seen <+: net.wire ∧ dep.Forges seen packet :=
  Parties.Reachable.provenance hnet dep.Sent (fun _ _ _ _ _ h => h.grow)
    (fun _ _ _ _ _ _ h hstep => h.keep hstep)
    (fun _ _ _ _ _ hrun hstep _ hmem => hstep.sent (reachable_run hrun) hmem) hpacket

/-- The inputs of a node have arrived. -/
def Arrived (dep : Deployment PeerId) (self : PeerId) (wire : List (Packet PeerId))
    (host : Host PeerId) : Prop :=
  ∀ before turn after, host.run.turns = before ++ turn :: after →
    ∃ streams streams', dep.Arrives self wire before streams turn.input streams'

/-- **What a node takes** was on the wire. -/
theorem arrived_of_reachable (hnet : dep.Reachable net) (n : PeerId) :
    dep.Arrived n net.wire (net.locals n) := by
  refine Parties.Reachable.local_invariant hnet dep.Arrived ?_ ?_ ?_ n
  · rintro n host ⟨⟨hturns, -⟩, -⟩ before turn after hsplit
    rw [hturns] at hsplit
    simp at hsplit
  · intro n wire more host harrived before turn after hsplit
    obtain ⟨streams, streams', h⟩ := harrived before turn after hsplit
    exact ⟨streams, streams', h.grow⟩
  · intro n wire host put host' harrived hstep before turn after hsplit
    cases hstep with
    | store db =>
        obtain ⟨streams, streams', h⟩ := harrived before turn after hsplit
        exact ⟨streams, streams', h.grow⟩
    | turn hhonest harrives hrun =>
        rcases List.eq_nil_or_concat after with rfl | ⟨after, last, rfl⟩
        · obtain ⟨rfl, hlast⟩ := List.append_inj' hsplit rfl
          obtain rfl := List.singleton_inj.mp hlast
          exact ⟨_, _, harrives.grow⟩
        · rw [List.concat_eq_append, ← List.cons_append, ← List.append_assoc] at hsplit
          obtain ⟨streams, streams', h⟩ := harrived before turn after
            (List.append_inj' hsplit rfl).1
          exact ⟨streams, streams', h.grow⟩

/-! ### Responses answer requests -/

omit [DecidableEq PeerId] in
/-- An id is handed out in one turn only. -/
theorem turn_eq_of_issued {turns : List (Turn PeerId)} (hids : (issuedIn turns).Nodup)
    {turn turn' : Turn PeerId} (hturn : turn ∈ turns) (hturn' : turn' ∈ turns)
    {key : IdSpace × RequestId} (hkey : key ∈ issued turn.calls)
    (hkey' : key ∈ issued turn'.calls) : turn = turn' := by
  by_contra hne
  have hsymm : Std.Symm (Function.onFun List.Disjoint fun turn : Turn PeerId =>
      issued turn.calls) := ⟨fun _ _ h => h.symm⟩
  have hapart := (List.nodup_flatMap.mp hids).2.forall hturn hturn' hne
  exact hapart hkey hkey'

omit [DecidableEq PeerId] in
/-- Sending a request issues its id. -/
theorem issued_of_sendEvent {p : WireProtocol} {peer : PeerId} {req : p.Request PeerId}
    {id : RequestId} {calls : NodeCalls PeerId} (h : p.sendEvent peer req id ∈ calls) :
    (p.idSpace, id) ∈ issued calls := by
  refine List.mem_filterMap.mpr ⟨_, h, ?_⟩
  cases p <;> rfl

/-- **A response answers the request that was sent under its id**, and comes from the peer
that was asked; if that peer runs this program, it is what the peer answers. -/
theorem answer_of_response (hnet : dep.Reachable net) {n m : PeerId} (hn : dep.honest n)
    (hids : (issuedIn (net.locals n).run.turns).Nodup) {turn : Turn PeerId}
    (hturn : turn ∈ (net.locals n).run.turns) {p : WireProtocol} {id : RequestId} {bytes : Bytes}
    (hissued : (p.idSpace, id) ∈ issued turn.calls)
    (hpacket : .response p n m id bytes ∈ net.wire) :
    ∃ req, p.sendEvent m req id ∈ turn.calls ∧ (dep.honest m → ∃ req' rest res,
      p.readRequest dep.addrFormats (p.writeRequest dep.addrFormats req) = .ok (req', rest) ∧
      dep.Answers m (net.locals m) p req' res ∧
      p.writeResponse dep.addrFormats dep.overflowChecks res = some bytes) := by
  -- a request under the id, whoever answered it
  have hquestion : ∀ question, .request p n m id question ∈ net.wire →
      ∃ req, p.sendEvent m req id ∈ turn.calls ∧ question = p.writeRequest dep.addrFormats req := by
    intro question hmem
    rcases sent_of_wire hnet hmem with ⟨k, rfl, turn', hturn', req, hsend, rfl⟩ | ⟨_, _, hforged⟩
    · obtain rfl := turn_eq_of_issued hids hturn hturn' hissued (issued_of_sendEvent hsend)
      exact ⟨req, hsend, rfl⟩
    · exact absurd hn hforged
  rcases sent_of_wire hnet hpacket with
    ⟨k, rfl, question, rest, req', res, hmem, hread, hanswer⟩ | ⟨seen, hseen, hm, question, hmem⟩
  · obtain ⟨req, hsend, rfl⟩ := hquestion question hmem
    exact ⟨req, hsend, fun _ => ⟨req', rest, res, hread, hanswer⟩⟩
  · obtain ⟨req, hsend, -⟩ := hquestion question (hseen.subset hmem)
    exact ⟨req, hsend, fun hhonest => absurd hhonest hm⟩

end Deployment

/-! ### Replies are responses -/

namespace WireProtocol

/-- The map in which the requests of a protocol wait. -/
def slot : WireProtocol → Slot
  | .blob => .fetches
  | .range => .rangeFetches
  | .sliver => .sliverFetches
  | .addr => .addrQueries

/-- What a response is turned into. -/
def message : (p : WireProtocol) → p.Response → Message PeerId
  | .blob, res => NodeState.fetched res.data
  | .range, res => NodeState.fetched res.data
  | .sliver, res => NodeState.fetched res.data
  | .addr, res => .addresses res.addresses

/-- The failures of a request. -/
def failure : WireProtocol → String → Message PeerId
  | .addr, _ => .addresses []
  | _, error => .data (.error (.p2pNetwork error))

end WireProtocol

omit [DecidableEq PeerId] in
/-- **What is said in a map of a protocol** is a response, or a failure. -/
theorem SwarmEvent.response_of_message {event : SwarmEvent PeerId} {p : WireProtocol}
    {id : RequestId} {msg : Message PeerId} (hid : event.id? = some (p.idSpace, id))
    (hmsg : (p.slot, msg) ∈ event.messages) :
    (∃ res, NodeInput.event event = p.responseInput id res ∧ msg = p.message res) ∨
      ∃ error, msg = p.failure error := by
  rcases event with (event | event | event | event | event | _ | _ | _) | _ | _
  · rcases event with _ | ⟨id', result⟩ | _
    · cases hid
    · cases p <;> cases hid
    · cases hid
  all_goals
    first
    | cases hid
    | obtain ⟨outcome, houtcome, heq⟩ := List.mem_map.mp hmsg
      cases p <;> cases heq
      cases event with
      | response id' res =>
          obtain rfl := Option.some.inj (Option.mem_toList.mp houtcome)
          cases hid
          exact .inl ⟨res, rfl, rfl⟩
      | outboundFailure id' peer error =>
          obtain rfl := Option.some.inj (Option.mem_toList.mp houtcome)
          exact .inr ⟨error, rfl⟩
      | request | inboundFailure | other => cases hid

/-- What a command that waits in a map is told is said by an event about its request, unless
it is an address query and there was nobody to ask. -/
theorem ReachableNode.reply_source {formats : NodeFormats PeerId} {config : NodeConfig PeerId}
    {run : NodeRun PeerId} (hrun : ReachableNode formats config run)
    (hids : (issuedIn run.turns).Nodup) (hchannels : (channelsIn run.turns).Nodup)
    {turn : Turn PeerId} (hturn : turn ∈ run.turns) {cmd : P2pCommand PeerId} {reply : Channel}
    {slot : Slot} (hinput : turn.input = .command cmd reply) (hslot : cmd.slot? = some slot)
    {msg : Message PeerId} (hmsg : (reply, msg) ∈ sentIn run.turns) :
    (slot = .addrQueries ∧ msg = .addresses []) ∨
      ∃ id event, issued turn.calls = [(slot.idSpace, id)] ∧
        event.id? = some (slot.idSpace, id) ∧ (slot, msg) ∈ event.messages ∧
        ∃ before done after, run.turns = before ++ done :: after ∧ done.input = .event event := by
  obtain ⟨hturns, -⟩ := played_of_reachable hrun
  obtain ⟨before, after, hsplit⟩ := List.append_of_mem hturn
  rcases hturns.source (hturns.fresh hids hchannels) hchannels hsplit hinput hslot hmsg with
    hsent | ⟨id, hissued, done, hdone, event, hevent, -, hid, hmessage⟩
  · left
    rcases (hturns.handled hturn hinput).waits hslot with ⟨⟨target, rfl⟩, hcalls⟩ | ⟨_, _, hnone⟩
    · rw [hcalls] at hsent
      obtain ⟨-, rfl⟩ := Prod.mk.inj (List.mem_singleton.mp hsent)
      exact ⟨(Option.some.inj hslot).symm, rfl⟩
    · rw [hnone] at hsent
      cases hsent
  · obtain ⟨mid, rest, rfl⟩ := List.append_of_mem hdone
    refine .inr ⟨id, event, hissued, hid, hmessage, before ++ turn :: mid, done, rest, ?_, hevent⟩
    rw [hsplit, List.append_assoc, List.cons_append]

namespace Deployment

variable {dep : Deployment PeerId} {net : Parties.Network PeerId (Host PeerId) (Packet PeerId)}

/-- The run of every node is one of its loop alone. -/
theorem run_of_reachable (hnet : dep.Reachable net) (n : PeerId) :
    ReachableNode dep.formats (dep.config n) (net.locals n).run :=
  reachable_run (Parties.Reachable.of_local hnet n)

/-- The peer `m` was asked `req`, and what came back of it was read as `res`. -/
structure Answered (dep : Deployment PeerId)
    (net : Parties.Network PeerId (Host PeerId) (Packet PeerId)) (turn : Turn PeerId)
    (p : WireProtocol) (m : PeerId) (req : p.Request PeerId) (res : p.Response) : Prop where
  /-- the request was sent in the turn -/
  asked : ∃ id, p.sendEvent m req id ∈ turn.calls
  /-- a peer that runs this program has answered what it read -/
  answered : dep.honest m → ∃ req' rest written bytes rest',
    p.readRequest dep.addrFormats (p.writeRequest dep.addrFormats req) = .ok (req', rest) ∧
    dep.Answers m (net.locals m) p req' written ∧
    p.writeResponse dep.addrFormats dep.overflowChecks written = some bytes ∧
    p.readResponse dep.addrFormats bytes = .ok (res, rest')

/-- **What a command is told** is what the peer it asked has answered, or a failure. -/
theorem answered_of_reply (hnet : dep.Reachable net) {n : PeerId} (hn : dep.honest n)
    (hids : (issuedIn (net.locals n).run.turns).Nodup)
    (hchannels : (channelsIn (net.locals n).run.turns).Nodup) {turn : Turn PeerId}
    (hturn : turn ∈ (net.locals n).run.turns) {cmd : P2pCommand PeerId} {reply : Channel}
    {p : WireProtocol} (hinput : turn.input = .command cmd reply)
    (hslot : cmd.slot? = some p.slot) {msg : Message PeerId}
    (hmsg : (reply, msg) ∈ sentIn (net.locals n).run.turns) :
    (∃ m req res, dep.Answered net turn p m req res ∧ msg = p.message res) ∨
      ∃ error, msg = p.failure error := by
  have hspace : p.slot.idSpace = p.idSpace := by cases p <;> rfl
  rcases (run_of_reachable hnet n).reply_source hids hchannels hturn hinput hslot hmsg with
    ⟨haddr, rfl⟩ | ⟨id, event, hissued, hid, hmessage, before, done, after, hsplit, hdone⟩
  · right
    cases p <;> cases haddr
    exact ⟨"", rfl⟩
  · rw [hspace] at hissued hid
    refine (SwarmEvent.response_of_message hid hmessage).imp_left ?_
    rintro ⟨res, hresponse, rfl⟩
    obtain ⟨streams, streams', harrives⟩ := arrived_of_reachable hnet n before done after hsplit
    rw [hdone, hresponse] at harrives
    obtain ⟨m, bytes, rest', hpacket, hread⟩ := harrives.of_response
    have hkey : (p.idSpace, id) ∈ issued turn.calls := hissued ▸ List.mem_cons_self
    obtain ⟨req, hsend, hanswer⟩ := answer_of_response hnet hn hids hturn hkey hpacket
    refine ⟨m, req, res, ⟨⟨id, hsend⟩, fun hm => ?_⟩, rfl⟩
    obtain ⟨req', rest, written, hasked, hanswers, hwrite⟩ := hanswer hm
    exact ⟨req', rest, written, bytes, rest', hasked, hanswers, hwrite, hread⟩

/-! ### Fetches -/

omit [DecidableEq PeerId] in
/-- A handler answers with what a read of the store gave it, or not at all. -/
theorem data_of_handleInboundRequest {lib : Externals PeerId} {read : StoreRead} {counter : ℕ}
    {req : BlobRequest} {data : Bytes}
    (h : (handleInboundRequest lib read counter req).1.data = some data) :
    read (lib.blobIdToString ⟨req.blobId⟩) = .ok (some data) := by
  rw [handleInboundRequest] at h
  split at h
  · cases h
  · dsimp only at h
    split at h
    · rename_i found hfound
      rw [hfound, Option.some.inj h]
    · cases h
    · cases h

omit [DecidableEq PeerId] in
@[inherit_doc data_of_handleInboundRequest]
theorem data_of_handleInboundRangeRequest {overflowChecks : Bool} {lib : Externals PeerId}
    {read : StoreRead} {counter next : ℕ} {req : RangeRequest} {res : RangeResponse} {data : Bytes}
    (hlength : req.length < 18446744073709551616)
    (h : handleInboundRangeRequestIn overflowChecks lib read counter req = some (res, next))
    (hdata : res.data = some data) :
    ∃ blob, read (lib.blobIdToString ⟨req.blobId⟩) = .ok (some blob) ∧
      req.offset < blob.length ∧ data = slice blob req.offset req.length := by
  rw [handleInboundRangeRequestIn] at h
  split at h
  · obtain ⟨rfl, -⟩ := Prod.mk.inj (Option.some.inj h)
    cases hdata
  · dsimp only at h
    split at h
    · rename_i blob hfound
      obtain ⟨_, hserve, heq⟩ := Option.map_eq_some_iff.mp h
      obtain ⟨rfl, -⟩ := Prod.mk.inj heq
      rw [serveRangeIn_eq overflowChecks blob hlength] at hserve
      split at hserve
      · obtain rfl := Option.some.inj hserve
        rw [rangeAnswer] at hdata
        split at hdata
        · rename_i hin
          refine ⟨blob, hfound, hin, ?_⟩
          rw [← Option.some.inj hdata, slice, ← List.take_eq_take_min, List.drop_take,
            Nat.add_sub_cancel_left]
        · cases hdata
      · cases hserve
    · obtain ⟨rfl, -⟩ := Prod.mk.inj (Option.some.inj h)
      cases hdata
    · obtain ⟨rfl, -⟩ := Prod.mk.inj (Option.some.inj h)
      cases hdata

end Deployment

/-! ### What is read of what was written -/

omit [DecidableEq PeerId] in
/-- What is written with overflow checks is written without them. -/
theorem addU32_release {overflowChecks : Bool} {a b n : ℕ}
    (h : addU32 overflowChecks a b = some n) : addU32 false a b = some n := by
  rw [addU32] at h ⊢
  split at h
  · rename_i hfits
    rwa [if_pos hfits]
  · cases overflowChecks with
    | false =>
        rename_i hover
        rwa [if_neg hover]
    | true => cases h

/-- What is read is the payload, cut to what 32 bits count. -/
theorem ReadsNarrowed.eq_of_read {α : Type} {before : ℕ} {read : Decoder α}
    {written : Option Bytes} {have_ : Bytes → α} {data bytes rest : Bytes} {message : α}
    (h : ReadsNarrowed before read written have_ data) (hwritten : written = some bytes)
    (hread : read bytes = .ok (message, rest)) :
    message = have_ (data.take (asU32 data.length)) := by
  obtain ⟨bytes', hwritten', hreads⟩ := h
  obtain rfl := Option.some.inj (hwritten.symm.trans hwritten')
  have hnil := hreads []
  rw [List.append_nil] at hnil
  by_cases hlong : maxMessageSize < before + asU32 data.length
  · obtain ⟨e, herror⟩ := hnil.2 hlong
    cases hread.symm.trans herror
  · have hok := hnil.1 (Nat.not_lt.mp hlong)
    exact (Prod.mk.inj (Except.ok.inj (hread.symm.trans hok))).1

/-- What is read of a blob response is what was written, cut to what 32 bits count. -/
theorem BinaryProtocolCodec.data_of_read {overflowChecks : Bool} {written res : BlobResponse}
    {bytes rest data : Bytes} (hwrite : writeResponse overflowChecks written = some bytes)
    (hread : readResponse bytes = .ok (res, rest)) (hdata : res.data = some data) :
    ∃ payload, written.data = some payload ∧ data = payload.take (asU32 payload.length) := by
  rw [writeResponse] at hwrite
  rcases hpayload : written.data with _ | payload
  · rw [hpayload] at hwrite
    obtain rfl := Option.some.inj hwrite
    have hnone : readResponse ((writeU32Le 1 ++ [0]) ++ []) = .ok (.notFound, []) :=
      readFrame_notFound []
    rw [List.append_nil] at hnone
    obtain ⟨rfl, -⟩ := Prod.mk.inj (Except.ok.inj (hread.symm.trans hnone))
    cases hdata
  · rw [hpayload] at hwrite
    obtain ⟨len, hlen, hbytes⟩ := Option.map_eq_some_iff.mp hwrite
    have hrelease : writeResponse false (.have_ payload) = some bytes := by
      simp only [writeResponse, BlobResponse.have_, addU32_release hlen]
      exact congrArg some hbytes
    obtain rfl := BinaryProtocolCodec.readsNarrowed.eq_of_read hrelease hread
    exact ⟨payload, rfl, (Option.some.inj hdata).symm⟩

/-- So is what is read of a range response. -/
theorem RangeProtocolCodec.data_of_read {overflowChecks : Bool} {written res : RangeResponse}
    {bytes rest data : Bytes} (hwrite : writeResponse overflowChecks written = some bytes)
    (hread : readResponse bytes = .ok (res, rest)) (hdata : res.data = some data) :
    ∃ payload, written.data = some payload ∧ data = payload.take (asU32 payload.length) := by
  rw [writeResponse] at hwrite
  rcases hpayload : written.data with _ | payload
  · rw [hpayload] at hwrite
    obtain rfl := Option.some.inj hwrite
    have hnone : readResponse ((writeU32Le 1 ++ [0]) ++ []) = .ok (.notFound, []) :=
      readFrame_notFound []
    rw [List.append_nil] at hnone
    obtain ⟨rfl, -⟩ := Prod.mk.inj (Except.ok.inj (hread.symm.trans hnone))
    cases hdata
  · rw [hpayload] at hwrite
    obtain ⟨len, hlen, hbytes⟩ := Option.map_eq_some_iff.mp hwrite
    have hrelease : writeStatus false (some payload) = some bytes := by
      simp only [writeStatus, addU32_release hlen]
      exact congrArg some hbytes
    obtain rfl := readsNarrowed_rest.eq_of_read hrelease hread
    exact ⟨payload, rfl, (Option.some.inj hdata).symm⟩

namespace Deployment

variable {dep : Deployment PeerId} {net : Parties.Network PeerId (Host PeerId) (Packet PeerId)}

/-- A fetch that got data got a response. -/
theorem answered_of_data {turn : Turn PeerId} {p : WireProtocol} {msg : Message PeerId}
    {data : Bytes} (hmsg : (∃ m req res, dep.Answered net turn p m req res ∧ msg = p.message res) ∨
      ∃ error, msg = p.failure error) (hdata : msg = .data (.ok data)) :
    ∃ m req res, dep.Answered net turn p m req res ∧
      (p.message res : Message PeerId) = .data (.ok data) := by
  rcases hmsg with ⟨m, req, res, hanswered, rfl⟩ | ⟨error, rfl⟩
  · exact ⟨m, req, res, hanswered, hdata⟩
  · cases p <;> cases hdata

omit [DecidableEq PeerId] in
/-- What a node is told of a fetch is what was found. -/
theorem data_of_fetched {found : Option Bytes} {data : Bytes}
    (h : (NodeState.fetched found : Message PeerId) = .data (.ok data)) : found = some data := by
  cases found with
  | some found => exact congrArg some (Except.ok.inj (Message.data.inj h))
  | none => cases Message.data.inj h

/-- What a read of a store gave was in the store. -/
theorem Reads.get_eq {db : BlobStore} {read : StoreRead} (h : Reads db read) {key : String}
    {data : Bytes} (hread : read key = .ok (some data)) : db.get key = some data := by
  rcases h key with hok | ⟨e, herror⟩
  · exact Except.ok.inj (hok.symm.trans hread)
  · cases herror.symm.trans hread

/-- **A fetch gets what the asked peer has stored**: in every interleaving, data that a node is
told for a blob it fetched from a peer that runs this program was stored by that peer under
that blob, cut to what 32 bits count of its length. -/
theorem fetched_genuine (hnet : dep.Reachable net) {n m : PeerId} (hn : dep.honest n)
    (hm : dep.honest m) (hids : (issuedIn (net.locals n).run.turns).Nodup)
    (hchannels : (channelsIn (net.locals n).run.turns).Nodup) {turn : Turn PeerId}
    (hturn : turn ∈ (net.locals n).run.turns) {blobId proof : Bytes32} {reply : Channel}
    (hinput : turn.input = .command (.fetchBlob m blobId proof) reply) {data : Bytes}
    (hmsg : (reply, .data (.ok data)) ∈ sentIn (net.locals n).run.turns) :
    ∃ db ∈ (net.locals m).stores, ∃ blob, db.get (dep.lib.blobIdToString ⟨blobId⟩) = some blob ∧
      data = blob.take (asU32 blob.length) := by
  have hreply := answered_of_reply (p := .blob) hnet hn hids hchannels hturn hinput rfl hmsg
  obtain ⟨m', req, res, ⟨⟨id, hsend⟩, hanswered⟩, hdata⟩ := answered_of_data hreply rfl
  -- the command names the peer and the blob that were asked for
  obtain ⟨s, _, -, -, hadmits⟩ := (run_of_reachable hnet n).admits hturn
  obtain ⟨hversion, reply', hcommand⟩ := hadmits _ hsend
  rw [hinput] at hcommand
  cases hcommand
  obtain ⟨req', rest, written, bytes, rest', hasked, hanswers, hwrite, hread⟩ := hanswered hm
  have hback := BinaryProtocolCodec.readRequest_writeRequest
    (by rw [hversion]; omega : req.version < 256) []
  rw [List.append_nil] at hback
  obtain ⟨rfl, -⟩ := Prod.mk.inj (Except.ok.inj (hasked.symm.trans hback))
  obtain ⟨blob, hwritten, rfl⟩ :=
    BinaryProtocolCodec.data_of_read hwrite hread (data_of_fetched hdata)
  cases hanswers with
  | @blob db read counter _ hdb hreads =>
      exact ⟨db, hdb, blob, hreads.get_eq (data_of_handleInboundRequest hwritten), rfl⟩

/-- **A range fetch gets the range it asked for** of what the asked peer has stored, cut to what
32 bits count of its length. -/
theorem range_genuine (hnet : dep.Reachable net) {n m : PeerId} (hn : dep.honest n)
    (hm : dep.honest m) (hids : (issuedIn (net.locals n).run.turns).Nodup)
    (hchannels : (channelsIn (net.locals n).run.turns).Nodup) {turn : Turn PeerId}
    (hturn : turn ∈ (net.locals n).run.turns) {blobId proof : Bytes32} {offset length : ℕ}
    {reply : Channel}
    (hinput : turn.input = .command (.fetchRange m blobId offset length proof) reply)
    (hoffset : offset < 18446744073709551616) (hlength : length < 18446744073709551616)
    {data : Bytes} (hmsg : (reply, .data (.ok data)) ∈ sentIn (net.locals n).run.turns) :
    ∃ db ∈ (net.locals m).stores, ∃ blob, db.get (dep.lib.blobIdToString ⟨blobId⟩) = some blob ∧
      offset < blob.length ∧
      data = (slice blob offset length).take (asU32 (slice blob offset length).length) := by
  have hreply := answered_of_reply (p := .range) hnet hn hids hchannels hturn hinput rfl hmsg
  obtain ⟨m', req, res, ⟨⟨id, hsend⟩, hanswered⟩, hdata⟩ := answered_of_data hreply rfl
  obtain ⟨s, _, -, -, hadmits⟩ := (run_of_reachable hnet n).admits hturn
  obtain ⟨reply', hcommand⟩ := hadmits _ hsend
  rw [hinput] at hcommand
  cases hcommand
  obtain ⟨req', rest, written, bytes, rest', hasked, hanswers, hwrite, hread⟩ := hanswered hm
  have hback := RangeProtocolCodec.readRequest_writeRequest hoffset hlength []
  rw [List.append_nil] at hback
  obtain ⟨rfl, -⟩ := Prod.mk.inj (Except.ok.inj (hasked.symm.trans hback))
  obtain ⟨range, hwritten, rfl⟩ :=
    RangeProtocolCodec.data_of_read hwrite hread (data_of_fetched hdata)
  cases hanswers with
  | @range db read counter next _ _ hdb hreads hserve =>
      obtain ⟨blob, hfound, hin, rfl⟩ :=
        data_of_handleInboundRangeRequest hlength hserve hwritten
      exact ⟨db, hdb, blob, hreads.get_eq hfound, hin, rfl⟩

end Deployment

/-! ### Two nodes -/

section Pair

open Deployment

/-- The network after a turn of one node. -/
def afterTurn (net : Parties.Network ℕ (Host ℕ) (Packet ℕ)) (n : ℕ) (turn : Turn ℕ)
    (s : NodeState ℕ) (streams : Streams ℕ) (put : List (Packet ℕ)) :
    Parties.Network ℕ (Host ℕ) (Packet ℕ) :=
  ⟨Function.update net.locals n { net.locals n with
      run := ⟨s, (net.locals n).run.turns ++ [turn]⟩, streams := streams }, net.wire ++ put⟩

/-- A turn of an honest node, as a step of the network. -/
theorem reachable_afterTurn {dep : Deployment ℕ}
    {net : Parties.Network ℕ (Host ℕ) (Packet ℕ)} (hnet : dep.Reachable net) {n : ℕ}
    (hn : dep.honest n) {turn : Turn ℕ} {s : NodeState ℕ} {streams : Streams ℕ}
    {put : List (Packet ℕ)}
    (harrives : dep.Arrives n net.wire (net.locals n).run.turns (net.locals n).streams turn.input
      streams)
    (hrun : ((net.locals n).run.state.handle dep.formats (dep.config n) turn.input).Runs turn.calls
      (some s))
    (hput : dep.transmit n (fun key => .ok ((net.locals n).db.get key)) streams
      (net.locals n).requestCounter turn.calls = some (put, (net.locals n).requestCounter)) :
    dep.Reachable (afterTurn net n turn s streams put) :=
  hnet.snoc (.party (.turn hn harrives hrun (fun _ => .inl rfl) hput))

/-- Nodes that publish an address each, and no vault. -/
def pairDeployment : Deployment ℕ where
  formats := ⟨fun n => List.replicate n 0, fun _ => true, fun addr _ => addr,
    fun _ => .error "no blob id"⟩
  addrFormats := AddrProtocolCodec.sampleFormats
  lib := sampleExternals
  overflowChecks := true
  config n := ⟨n, "/ip4", [], [], some (List.Vector.replicate 32 (UInt8.ofNat n)), none⟩
  honest _ := True
  localPeerId_eq _ := rfl

/-- A proof of payment. -/
def paidProof : Bytes32 := List.Vector.replicate 32 1

/-- Every node has one blob. -/
def pairStart : Parties.Network ℕ (Host ℕ) (Packet ℕ) where
  locals n :=
    { run := ⟨.initial (pairDeployment.config n), []⟩
      db := BlobStore.put ⟨∅, ∅, ∅⟩ (sampleExternals.blobIdToString ⟨zeroBytes32⟩) [1, 2, 3]
      past := []
      requestCounter := 1
      streams := fun _ _ => none }
  wire := []

/-- Both nodes start. -/
theorem reachable_pairStart : pairDeployment.Reachable pairStart :=
  .of_init ⟨fun _ => ⟨⟨rfl, _, runs_call_iff.mpr ⟨.ok (), [], rfl, .ret _⟩⟩, rfl, rfl⟩, rfl⟩

/-- Node 0 asks node 1 for the blob. -/
def askTurn : Turn ℕ :=
  ⟨.command (.fetchBlob 1 zeroBytes32 paidProof) 0,
    [⟨.sendBlobRequest 1 ⟨zeroBytes32, 0, paidProof⟩, (7 : ℕ)⟩]⟩

def askedNet : Parties.Network ℕ (Host ℕ) (Packet ℕ) :=
  afterTurn pairStart 0 askTurn ((NodeState.initial (pairDeployment.config 0)).insert .fetches 7 0)
    (fun _ _ => none)
    [.request .blob 0 1 7 (BinaryProtocolCodec.writeRequest ⟨zeroBytes32, 0, paidProof⟩)]

/-- Node 0 asks for the blob. -/
theorem reachable_askedNet : pairDeployment.Reachable askedNet :=
  reachable_afterTurn reachable_pairStart trivial (.other rfl)
    (runs_call_iff.mpr ⟨(7 : ℕ), [], rfl, .ret _⟩) rfl

/-- Node 1 serves it. -/
def serveTurn : Turn ℕ :=
  ⟨.event (.behaviour (.data (.request ⟨zeroBytes32, 0, paidProof⟩ 4))),
    [⟨.serveBlobRequest ⟨zeroBytes32, 0, paidProof⟩ 4, ()⟩]⟩

/-- The frame of the response. -/
def responseFrame : Bytes := writeU32Le 8 ++ ([1] ++ (writeU32Le 3 ++ [1, 2, 3]))

def servedStreams : Streams ℕ :=
  Function.update (fun _ _ => none) .blob (Function.update (fun _ => none) 4 (some (0, 7)))

def servedNet : Parties.Network ℕ (Host ℕ) (Packet ℕ) :=
  afterTurn askedNet 1 serveTurn (NodeState.initial (pairDeployment.config 1)) servedStreams
    [.response .blob 0 1 7 responseFrame]

/-- Node 1 serves it. -/
theorem reachable_servedNet : pairDeployment.Reachable servedNet := by
  have hread := BinaryProtocolCodec.readRequest_writeRequest
    (by decide : (⟨zeroBytes32, 0, paidProof⟩ : BlobRequest).version < 256) []
  rw [List.append_nil] at hread
  refine reachable_afterTurn reachable_askedNet trivial
    (.request (p := .blob) List.mem_cons_self hread rfl)
    (runs_call_iff.mpr ⟨(), [], rfl, .ret _⟩) ?_
  have hget : (askedNet.locals 1).db.get (sampleExternals.blobIdToString ⟨zeroBytes32⟩)
      = some [1, 2, 3] := AList.lookup_insert _
  have hserve : handleInboundRequest sampleExternals
      (fun key => .ok ((askedNet.locals 1).db.get key)) 1 ⟨zeroBytes32, 0, paidProof⟩
        = (.have_ [1, 2, 3], 1) := by
    rw [handleInboundRequest, if_neg (by rintro ⟨hunpaid, -⟩; cases hunpaid)]
    dsimp only
    rw [hget]
    rfl
  have hpackets : pairDeployment.packets 1 (fun key => .ok ((askedNet.locals 1).db.get key))
      servedStreams 1 ⟨.serveBlobRequest ⟨zeroBytes32, 0, paidProof⟩ 4, ()⟩
        = some (pairDeployment.respond 1 servedStreams .blob 4 (.have_ [1, 2, 3]), 1) :=
    congrArg (fun served : BlobResponse × ℕ =>
      some (pairDeployment.respond 1 servedStreams .blob 4 served.1, served.2)) hserve
  exact transmit_cons hpackets rfl

/-- Node 0 gets it. -/
def getTurn : Turn ℕ :=
  ⟨.event (.behaviour (.data (.response 7 (.have_ [1, 2, 3])))),
    [⟨.reply 0 (.data (.ok [1, 2, 3])), ()⟩]⟩

def toldNet : Parties.Network ℕ (Host ℕ) (Packet ℕ) :=
  afterTurn servedNet 0 getTurn
    (((NodeState.initial (pairDeployment.config 0)).insert .fetches 7 0).remove .fetches 7)
    (fun _ _ => none) []

/-- Node 0 is told. -/
theorem reachable_toldNet : pairDeployment.Reachable toldNet := by
  have hread := BinaryProtocolCodec.readResponse_have
    (by decide : 5 + ([1, 2, 3] : Bytes).length < 4294967296) []
  rw [List.append_nil] at hread
  exact reachable_afterTurn reachable_servedNet trivial
    (.response (p := .blob) (List.mem_append_right _ List.mem_cons_self) hread)
    (runs_call_iff.mpr ⟨(), [], rfl, .ret _⟩) rfl

/-- Node 0 is told what node 1 stores. -/
theorem fetched_genuine_pair :
    ∃ db ∈ (toldNet.locals 1).stores, ∃ blob,
      db.get (sampleExternals.blobIdToString ⟨zeroBytes32⟩) = some blob ∧
      [1, 2, 3] = blob.take (asU32 blob.length) :=
  fetched_genuine reachable_toldNet (n := 0) (m := 1) trivial trivial (by decide) (by decide)
    (List.mem_cons_self : askTurn ∈ [askTurn, getTurn]) rfl (by decide)

/-- The bytes of the blob from the second on. -/
def tailRequest : RangeRequest := ⟨zeroBytes32, 1, 9, paidProof⟩

/-- Node 0 asks node 1 for them. -/
def askRangeTurn : Turn ℕ :=
  ⟨.command (.fetchRange 1 zeroBytes32 1 9 paidProof) 0,
    [⟨.sendRangeRequest 1 tailRequest, (7 : ℕ)⟩]⟩

def askedRangeNet : Parties.Network ℕ (Host ℕ) (Packet ℕ) :=
  afterTurn pairStart 0 askRangeTurn
    ((NodeState.initial (pairDeployment.config 0)).insert .rangeFetches 7 0) (fun _ _ => none)
    [.request .range 0 1 7 (RangeProtocolCodec.writeRequest tailRequest)]

/-- Node 1 serves them. -/
def serveRangeTurn : Turn ℕ :=
  ⟨.event (.behaviour (.range (.request tailRequest 4))), [⟨.serveRangeRequest tailRequest 4, ()⟩]⟩

def servedRangeStreams : Streams ℕ :=
  Function.update (fun _ _ => none) .range (Function.update (fun _ => none) 4 (some (0, 7)))

def servedRangeNet : Parties.Network ℕ (Host ℕ) (Packet ℕ) :=
  afterTurn askedRangeNet 1 serveRangeTurn (NodeState.initial (pairDeployment.config 1))
    servedRangeStreams [.response .range 0 1 7 (writeU32Le 3 ++ ([1] ++ [2, 3]))]

/-- Node 1 serves the range. -/
theorem reachable_servedRangeNet : pairDeployment.Reachable servedRangeNet := by
  have hread := RangeProtocolCodec.readRequest_writeRequest
    (by decide : tailRequest.offset < 18446744073709551616)
    (by decide : tailRequest.length < 18446744073709551616) []
  rw [List.append_nil] at hread
  have hasked : pairDeployment.Reachable askedRangeNet :=
    reachable_afterTurn reachable_pairStart trivial (.other rfl)
      (runs_call_iff.mpr ⟨(7 : ℕ), [], rfl, .ret _⟩) rfl
  refine reachable_afterTurn hasked trivial (.request (p := .range) List.mem_cons_self hread rfl)
    (runs_call_iff.mpr ⟨(), [], rfl, .ret _⟩) ?_
  have hget : (askedRangeNet.locals 1).db.get (sampleExternals.blobIdToString ⟨zeroBytes32⟩)
      = some [1, 2, 3] := AList.lookup_insert _
  have hserve : handleInboundRangeRequestIn true sampleExternals
      (fun key => .ok ((askedRangeNet.locals 1).db.get key)) 1 tailRequest
        = some (.have_ [2, 3], 1) := by
    rw [handleInboundRangeRequestIn, if_neg (by rintro ⟨hunpaid, -⟩; cases hunpaid)]
    dsimp only [tailRequest]
    rw [hget]
    rfl
  have hpackets : pairDeployment.packets 1
      (fun key => .ok ((askedRangeNet.locals 1).db.get key)) servedRangeStreams 1
      ⟨.serveRangeRequest tailRequest 4, ()⟩
        = some (pairDeployment.respond 1 servedRangeStreams .range 4 (.have_ [2, 3]), 1) :=
    congrArg (fun served : Option (RangeResponse × ℕ) => served.bind fun served =>
      some (pairDeployment.respond 1 servedRangeStreams .range 4 served.1, served.2)) hserve
  exact transmit_cons hpackets rfl

/-- Node 0 gets them. -/
def getRangeTurn : Turn ℕ :=
  ⟨.event (.behaviour (.range (.response 7 (.have_ [2, 3])))),
    [⟨.reply 0 (.data (.ok [2, 3])), ()⟩]⟩

def toldRangeNet : Parties.Network ℕ (Host ℕ) (Packet ℕ) :=
  afterTurn servedRangeNet 0 getRangeTurn
    (((NodeState.initial (pairDeployment.config 0)).insert .rangeFetches 7 0).remove
      .rangeFetches 7) (fun _ _ => none) []

/-- Node 0 is told of it. -/
theorem reachable_toldRangeNet : pairDeployment.Reachable toldRangeNet := by
  have hread : RangeProtocolCodec.readResponse ((writeU32Le 3 ++ ([1] ++ [2, 3])) ++ []) = _ :=
    readFrame_rest (by decide : 1 + ([2, 3] : Bytes).length < 4294967296) []
  rw [List.append_nil] at hread
  exact reachable_afterTurn reachable_servedRangeNet trivial
    (.response (p := .range) (List.mem_append_right _ List.mem_cons_self) hread)
    (runs_call_iff.mpr ⟨(), [], rfl, .ret _⟩) rfl

/-- Node 0 is told the rest of the blob, which ends before the range does. -/
theorem range_genuine_pair :
    ∃ db ∈ (toldRangeNet.locals 1).stores, ∃ blob,
      db.get (sampleExternals.blobIdToString ⟨zeroBytes32⟩) = some blob ∧ 1 < blob.length ∧
      [2, 3] = (slice blob 1 9).take (asU32 (slice blob 1 9).length) :=
  range_genuine reachable_toldRangeNet (n := 0) (m := 1) trivial trivial (by decide) (by decide)
    (List.mem_cons_self : askRangeTurn ∈ [askRangeTurn, getRangeTurn]) rfl (by decide) (by decide)
    (by decide)

end Pair

end ZingCdn
