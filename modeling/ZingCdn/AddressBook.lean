import ZingCdn.AddrRoundTrip
import ZingCdn.Library.Latest
import ZingCdn.NetworkSafety

/-!
# The Address Book of a Node

The loop keeps, for each peer, the addresses that it was last told of: Kademlia reports them
when its routing table changes, and a peer names its own when it identifies itself. A report
without addresses is passed over, and nothing is ever erased.

The book is read in two places. `DialKadPeer` without addresses dials what the book has for the
peer, and another node that asks for the addresses of a peer is answered from it. So what a
node is told about a third peer is what the peer it asked was told last, at some time before.

## Main results

* `addressBook_of_reachable`: the book is what the past turns last said.
* `dialed_from_book`: which addresses a `DialKadPeer` dials, and what it reports.
* `Deployment.addresses_genuine`: what a node is told by another.
-/

open Program Program.Prog

namespace ZingCdn

variable {PeerId : Type}

/-- The addresses that an input names for a peer. -/
def NodeInput.named? : NodeInput PeerId → Option (PeerId × List Multiaddr)
  | .event (.behaviour (.kad (.routingUpdated peer addrs))) =>
      if addrs.isEmpty then none else some (peer, addrs)
  | .event (.behaviour (.identifyReceived peer addrs)) =>
      if addrs.isEmpty then none else some (peer, addrs)
  | _ => none

/-- The addresses that a turn names for a peer. -/
def Turn.named? (turn : Turn PeerId) : Option (PeerId × List Multiaddr) := turn.input.named?

/-- The addresses that some turns last named for each peer. -/
def lastNamed [DecidableEq PeerId] (turns : List (Turn PeerId)) :
    PeerId → Option (List Multiaddr) :=
  Latest.latest Turn.named? turns

/-- What the loop has in its book for a peer. -/
def NodeState.addressBook [DecidableEq PeerId] (s : NodeState PeerId) (peer : PeerId) :
    Option (List Multiaddr) :=
  s.peerAddresses.lookup peer

/-! ### What leaves the book alone -/

namespace NodeState

section Frames

variable {s : NodeState PeerId} {formats : NodeFormats PeerId} {config : NodeConfig PeerId}

/-- Settling a request leaves the book alone. -/
theorem book_settle (slot : Slot) (id : RequestId) (msg : Message PeerId) :
    Frames peerAddresses s (s.settle slot id msg) := by
  intro h
  rw [settle]
  split
  · exact ⟨trivial, fun _ _ => rfl⟩
  · rfl

/-- So does a fetch event. -/
theorem book_handleFetchEvent {Req Resp : Type} (slot : Slot)
    (serve : Req → ResponseChannel → NodeCall PeerId) (data : Resp → Option Bytes)
    (event : RequestResponseEvent PeerId Req Resp) :
    Frames peerAddresses s (s.handleFetchEvent slot serve data event) := by
  cases event with
  | request request channel => exact frames_callAll [serve request channel] rfl
  | response id response => exact book_settle slot id _
  | outboundFailure id peer error => exact book_settle slot id _
  | inboundFailure | other => exact frames_pure rfl

/-- So does the result of a query. -/
theorem book_handleQueryResult (id : RequestId) (result : QueryResult PeerId) :
    Frames peerAddresses s (s.handleQueryResult id result) := by
  cases result with
  | getProviders r => rcases r with _ | _ | _ <;> exact book_settle .finds id _
  | getRecord r =>
      rcases r with _ | _ <;>
        exact (book_settle .suiAddrQueries id _).bind fun _ => book_settle .vaultQueries id _
  | startProviding r =>
      rcases r with _ | key
      · exact frames_pure rfl
      · rw [handleQueryResult]
        split
        · dsimp only
          split
          · exact frames_pure rfl
          · exact frames_callAll [.startProviding key] rfl
        · exact frames_pure rfl
  | bootstrap | putRecord | other => exact frames_pure rfl

/-- So does publishing the address. -/
theorem book_publishSuiAddrOnce :
    Frames peerAddresses s (s.publishSuiAddrOnce formats config) := by
  rw [publishSuiAddrOnce]
  split
  · exact frames_pure rfl
  · split
    · exact frames_callAll _ rfl
    · exact frames_pure rfl

/-- So does publishing the vault. -/
theorem book_publishVaultOnce : Frames peerAddresses s (s.publishVaultOnce formats config) := by
  rw [publishVaultOnce]
  split
  · exact frames_pure rfl
  · split
    · exact frames_callAll _ rfl
    · exact frames_pure rfl

variable [DecidableEq PeerId]

/-- An answer about addresses is passed on and not kept. -/
theorem book_handleAddrEvent
    (event : RequestResponseEvent PeerId (AddrRequest PeerId) AddrResponse) :
    Frames peerAddresses s (s.handleAddrEvent event) := by
  cases event with
  | request request channel => exact frames_callAll [.sendAddrResponse channel _] rfl
  | response id response => exact book_settle .addrQueries id _
  | outboundFailure id peer error => exact book_settle .addrQueries id _
  | inboundFailure | other => exact frames_pure rfl

/-- A bootstrap peer that connects does not change the book. -/
theorem book_bootstrapConnected (peer : PeerId) :
    Frames peerAddresses s (s.bootstrapConnected formats peer) := by
  intro h
  rw [bootstrapConnected]
  split
  · split
    · refine ⟨trivial, fun listed _ => ?_⟩
      rcases listed with e | ids
      · rfl
      · exact frames_callAll _ rfl _
    · refine ⟨trivial, fun started _ => ?_⟩
      rcases started with e | id <;> rfl
  · rfl

/-- A connection adds an address to the routing table only. -/
theorem book_handleConnectionEstablished (peer : PeerId) (endpoint : ConnectedPoint) :
    Frames peerAddresses s (s.handleConnectionEstablished formats config peer endpoint) := by
  refine Frames.callAll_bind ?_ _
  refine book_publishSuiAddrOnce.bind fun _ => book_publishVaultOnce.bind fun _ => ?_
  exact (book_bootstrapConnected peer).bind fun _ => frames_callAll _ rfl

/-- No command does. -/
theorem book_handleCommand (cmd : P2pCommand PeerId) (reply : Channel) :
    Frames peerAddresses s (s.handleCommand formats cmd reply) := by
  intro h
  cases cmd with
  | announceBlob blobId =>
      refine ⟨trivial, fun started _ => ⟨trivial, fun connected _ => ?_⟩⟩
      rcases connected with _ | ⟨peer, rest⟩ <;> rfl
  | dialKadPeer peer addrs =>
      refine (meets_dialAddresses formats peer _ false).bind fun _ success _ _ => ?_
      exact ⟨trivial, fun _ _ => rfl⟩
  | queryPeerAddress target =>
      refine ⟨trivial, fun connected _ => ?_⟩
      rcases connected with _ | ⟨peer, rest⟩ <;> exact ⟨trivial, fun _ _ => rfl⟩
  | getConnectedPeers => exact ⟨trivial, fun _ _ => ⟨trivial, fun _ _ => rfl⟩⟩
  | _ => exact ⟨trivial, fun _ _ => rfl⟩

/-! ### What a turn writes into the book -/

/-- A program that leaves the book alone, on an input that names nothing. -/
theorem learns_of_frames {p : NodeAction PeerId (NodeState PeerId)}
    (hp : Frames peerAddresses s p) {turn : Turn PeerId} {s' : NodeState PeerId}
    (hrun : p.Runs turn.calls (some s')) (hnamed : turn.named? = none) :
    s'.addressBook = Latest.learn Turn.named? s.addressBook turn := by
  obtain ⟨_, heq, hbook⟩ := (hp []).ends hrun fun _ _ => trivial
  obtain rfl := Option.some.inj heq
  rw [Latest.learn_of_none hnamed]
  funext peer
  rw [addressBook, addressBook, hbook]

/-- Some addresses of a peer are kept, if there are any. -/
theorem learns_of_named (peer : PeerId) (addrs : List Multiaddr)
    {p : NodeAction PeerId (NodeState PeerId)}
    (hp : Meets (.under fun _ _ => True) [] p fun _ s' => s'.peerAddresses
      = if addrs.isEmpty then s.peerAddresses else s.peerAddresses.insert peer addrs)
    {turn : Turn PeerId} {s' : NodeState PeerId} (hrun : p.Runs turn.calls (some s'))
    (hnamed : turn.named? = if addrs.isEmpty then none else some (peer, addrs)) :
    s'.addressBook = Latest.learn Turn.named? s.addressBook turn := by
  obtain ⟨_, heq, hbook⟩ := hp.ends hrun fun _ _ => trivial
  obtain rfl := Option.some.inj heq
  funext peer'
  rw [addressBook, hbook]
  by_cases hempty : addrs.isEmpty
  · rw [if_pos hempty] at hnamed ⊢
    rw [Latest.learn_of_none hnamed]
    rfl
  · rw [if_neg hempty] at hnamed ⊢
    rw [Latest.learn_of_some hnamed]
    by_cases hpeer : peer' = peer
    · rw [hpeer, Function.update_self, AList.lookup_insert]
    · rw [Function.update_of_ne hpeer, AList.lookup_insert_ne hpeer]
      rfl

/-- **One turn of the loop** writes what its input names. -/
theorem learns_handle {turn : Turn PeerId} {s' : NodeState PeerId}
    (hrun : (s.handle formats config turn.input).Runs turn.calls (some s')) :
    s'.addressBook = Latest.learn Turn.named? s.addressBook turn := by
  obtain ⟨input, calls⟩ := turn
  rcases input with ⟨cmd, reply⟩ | event | _
  · exact learns_of_frames (book_handleCommand cmd reply) hrun rfl
  · rcases event with event | ⟨peer, endpoint⟩ | _
    · rcases event with event | event | event | event | event | ⟨peer, addrs⟩ | _ | _
      · rcases event with ⟨peer, addrs⟩ | ⟨id, result⟩ | _
        · refine learns_of_named peer addrs ?_ hrun rfl
          rw [handle, handleSwarmEvent, handleBehaviourEvent, handleKadEvent]
          split <;> rfl
        · exact learns_of_frames (book_handleQueryResult id result) hrun rfl
        · exact learns_of_frames (frames_pure rfl) hrun rfl
      · exact learns_of_frames (book_handleFetchEvent _ _ _ event) hrun rfl
      · exact learns_of_frames (book_handleFetchEvent _ _ _ event) hrun rfl
      · exact learns_of_frames (book_handleFetchEvent _ _ _ event) hrun rfl
      · exact learns_of_frames (book_handleAddrEvent event) hrun rfl
      · refine learns_of_named peer addrs ?_ hrun rfl
        rw [handle, handleSwarmEvent, handleBehaviourEvent]
        split
        · rfl
        · exact (meets_callAll _).bind fun _ _ _ _ => rfl
      · exact learns_of_frames (frames_pure rfl) hrun rfl
      · exact learns_of_frames (frames_pure rfl) hrun rfl
    · exact learns_of_frames (book_handleConnectionEstablished peer endpoint) hrun rfl
    · exact learns_of_frames (frames_pure rfl) hrun rfl
  · exact learns_of_frames (frames_republish formats config) hrun rfl

end Frames

end NodeState

/-! ### The book of a run -/

section Runs

variable [DecidableEq PeerId] {formats : NodeFormats PeerId} {config : NodeConfig PeerId}
  {run : NodeRun PeerId}

/-- **The book is what the past turns last said**, in every run. -/
theorem addressBook_of_reachable (hrun : ReachableNode formats config run) :
    run.state.addressBook = lastNamed run.turns := by
  refine hrun.invariant (fun run => run.state.addressBook = lastNamed run.turns) ?_ ?_
  · rintro ⟨s, turns⟩ ⟨hturns, calls, hstart⟩
    obtain rfl : turns = [] := hturns
    obtain rfl : s = .initial config := startup_eq hstart
    funext peer
    exact AList.lookup_empty peer
  · rintro _ _ hbook ⟨hturn⟩
    rw [lastNamed, Latest.latest_snoc]
    exact (NodeState.learns_handle hturn).trans (congrArg (Latest.learn Turn.named? · _) hbook)

/-! ### Dialing -/

/-- The address that is dialled for a peer: with its id, which is pushed if it is missing. -/
def dialAddr (formats : NodeFormats PeerId) (peer : PeerId) (addr : Multiaddr) : Multiaddr :=
  if formats.hasP2p addr then addr else formats.pushP2p addr peer

/-- The addresses that a `DialKadPeer` dials: those it is given, or those of the book. -/
def dialList (given : Option (List Multiaddr)) (book : Option (List Multiaddr)) :
    List Multiaddr :=
  match given with
  | some (addr :: rest) => addr :: rest
  | _ => book.getD []

/-- The swarm has accepted a dial. -/
def Dialed (calls : NodeCalls PeerId) : Prop :=
  ∃ addr, ⟨.dial addr, (.ok () : Except String Unit)⟩ ∈ calls

omit [DecidableEq PeerId] in
/-- A first dial is accepted, or a later one. -/
theorem dialed_cons_iff {addr : Multiaddr} {dialed : Except String Unit}
    {dials : NodeCalls PeerId} :
    Dialed (⟨.dial addr, dialed⟩ :: dials) ↔ dialed = .ok () ∨ Dialed dials := by
  constructor
  · rintro ⟨addr', hmem⟩
    rcases List.mem_cons.mp hmem with heq | hmem
    · cases heq
      exact .inl rfl
    · exact .inr ⟨addr', hmem⟩
  · rintro (rfl | ⟨addr', hmem⟩)
    · exact ⟨addr, List.mem_cons_self⟩
    · exact ⟨addr', List.mem_cons_of_mem _ hmem⟩

omit [DecidableEq PeerId] in
/-- The loop over the addresses dials each of them, in order, and notes whether one was accepted.
-/
theorem NodeState.meets_dials {h : NodeCalls PeerId} (peer : PeerId) (addrs : List Multiaddr)
    (connected : Bool) :
    Meets (.under fun _ _ => True) h (dialAddresses formats peer addrs connected)
      fun h' success => ∃ dials, h' = h ++ dials ∧
        made dials = addrs.map (fun addr => .dial (dialAddr formats peer addr)) ∧
        (success = true ↔ connected = true ∨ Dialed dials) := by
  induction addrs generalizing h connected with
  | nil => exact ⟨[], (List.append_nil h).symm, rfl, by simp [Dialed]⟩
  | cons addr rest ih =>
      refine ⟨trivial, fun (dialed : Except String Unit) _ => (ih _).mono ?_⟩
      rintro _ success - ⟨dials, rfl, hmade, hsuccess⟩
      refine ⟨⟨.dial (dialAddr formats peer addr), dialed⟩ :: dials, List.append_assoc .., ?_, ?_⟩
      · exact congrArg (_ :: ·) hmade
      · rw [hsuccess, Bool.or_eq_true, or_assoc, dialed_cons_iff]
        rcases dialed with e | _ <;> simp [Except.isOk, Except.toBool]

/-- **What a `DialKadPeer` dials**: the addresses it is given, or else those that the node was
last told of for the peer, each with the id of the peer. It reports whether the swarm has
accepted one of them. -/
theorem dialed_from_book (hrun : ReachableNode formats config run)
    {before after : List (Turn PeerId)} {turn : Turn PeerId}
    (hturns : run.turns = before ++ turn :: after) {peer : PeerId}
    {given : Option (List Multiaddr)} {reply : Channel}
    (hinput : turn.input = .command (.dialKadPeer peer given) reply) :
    ∃ dials success, turn.calls = dials ++ [⟨.reply reply (.dialed success), ()⟩] ∧
      made dials = (dialList given (lastNamed before peer)).map
        (fun addr => .dial (dialAddr formats peer addr)) ∧
      (success = true ↔ Dialed dials) := by
  obtain ⟨s, s', hbefore, hturn⟩ := hrun.split hturns
  rw [hinput] at hturn
  have hbook : s.addressBook = lastNamed before := addressBook_of_reachable hbefore
  have hmeets : Meets (.under fun _ _ => True) [] (s.handleCommand formats
      (.dialKadPeer peer given) reply) fun calls _ => ∃ dials success,
        calls = dials ++ [⟨.reply reply (.dialed success), ()⟩] ∧
        made dials = (dialList given (lastNamed before peer)).map
          (fun addr => .dial (dialAddr formats peer addr)) ∧
        (success = true ↔ Dialed dials) := by
    refine (NodeState.meets_dials peer _ false).bind fun _ success _ hdials => ?_
    obtain ⟨_, rfl, hmade, hsuccess⟩ := hdials
    refine ⟨trivial, fun _ _ => ⟨_, success, rfl, ?_, by simpa using hsuccess⟩⟩
    rw [hmade, ← hbook]
    rfl
  obtain ⟨_, -, hcalls⟩ := hmeets.ends hturn fun _ _ => trivial
  exact hcalls

/-- The formats of a node that is told an address without a peer. -/
def bookFormats : NodeFormats ℕ :=
  ⟨fun n => List.replicate n 0, fun addr => addr == "/ip4/203.0.113.7/p2p/1",
    fun addr peer => addr ++ "/p2p/" ++ toString peer, fun _ => .error "no blob id"⟩

/-- Kademlia reports an address of peer 1. -/
def routedTurn : Turn ℕ :=
  ⟨.event (.behaviour (.kad (.routingUpdated 1 ["/ip4/203.0.113.7"]))), []⟩

/-- Peer 1 is dialled. -/
def dialTurn : Turn ℕ :=
  ⟨.command (.dialKadPeer 1 none) 5,
    [⟨.dial "/ip4/203.0.113.7/p2p/1", (.ok () : Except String Unit)⟩,
      ⟨.reply 5 (.dialed true), ()⟩]⟩

/-- The address that Kademlia named is dialed, with the id of the peer. -/
theorem dialed_from_book_routed :
    ∃ dials success, dialTurn.calls = dials ++ [⟨.reply 5 (.dialed success), ()⟩] ∧
      made dials = (dialList none (lastNamed [routedTurn] 1)).map
        (fun addr => .dial (dialAddr bookFormats 1 addr)) ∧
      (success = true ↔ Dialed dials) := by
  have hstart : ReachableNode bookFormats ⟨0, "/ip4", [], [], none, none⟩ ⟨.initial _, []⟩ :=
    .of_init ⟨rfl, [⟨.listenOn "/ip4", (.ok () : Except String Unit)⟩], .call _ (.ret _)⟩
  have hrouted : ReachableNode bookFormats ⟨0, "/ip4", [], [], none, none⟩ ⟨_, [routedTurn]⟩ :=
    hstart.snoc (.turn (.ret _))
  have hdialed : ReachableNode bookFormats ⟨0, "/ip4", [], [], none, none⟩
      ⟨_, [routedTurn, dialTurn]⟩ := hrouted.snoc (.turn (.call _ (.call _ (.ret _))))
  obtain ⟨run, hrun, hturns⟩ : ∃ run,
      ReachableNode bookFormats ⟨0, "/ip4", [], [], none, none⟩ run ∧
        run.turns = [routedTurn] ++ dialTurn :: [] := ⟨_, hdialed, rfl⟩
  exact dialed_from_book hrun hturns rfl

end Runs

/-! ### Asking another node -/

namespace AddrProtocolCodec

variable (formats : AddrFormats PeerId)

/-- A peer can be asked for: its id is read back, from a frame that is not too long. -/
structure Asks (peer : PeerId) : Prop where
  parses : formats.peerIdFromBytes (formats.peerIdToBytes peer) = .ok peer
  pos : 1 ≤ (formats.peerIdToBytes peer).length
  short : (formats.peerIdToBytes peer).length ≤ 256

/-- A list of addresses can be sent in one response. -/
structure Carries (addrs : List Multiaddr) : Prop where
  writable : ∀ addr ∈ addrs, Writable formats addr
  fits : (payload formats ⟨addrs⟩).length ≤ maxMessageSize

variable {formats}

/-- What is read of a response that carries its addresses. -/
theorem Carries.read_eq {addrs : List Multiaddr} (h : Carries formats addrs) :
    readResponse formats (writeResponse formats ⟨addrs⟩) = .ok (⟨addrs.take u16Max⟩, []) := by
  rw [← List.append_nil (writeResponse formats ⟨addrs⟩)]
  rcases addrs with _ | ⟨addr, rest⟩
  · exact readFrame_notFound []
  · exact readResponse_writeResponse_cons (List.cons_ne_nil addr rest) h.writable h.fits []

end AddrProtocolCodec

section Network

variable [DecidableEq PeerId]

/-- What is kept was named. -/
theorem exists_of_lastNamed {turns : List (Turn PeerId)} {peer : PeerId}
    {addrs : List Multiaddr} (h : lastNamed turns peer = some addrs) :
    ∃ turn ∈ turns, turn.named? = some (peer, addrs) := by
  obtain ⟨before, turn, after, rfl, hnamed, -⟩ := Latest.latest_eq_some_iff.mp h
  exact ⟨turn, by simp, hnamed⟩

namespace Deployment

variable {dep : Deployment PeerId} {net : Parties.Network PeerId (Host PeerId) (Packet PeerId)}

/-- **What a node is told about a peer**: addresses that it gets come from a peer that it asked,
and if that peer runs this program they are what it was told last of the peer in question, at
some time before, cut to as many as 16 bits count. -/
theorem addresses_genuine (hnet : dep.Reachable net) {n : PeerId} (hn : dep.honest n)
    (hids : (issuedIn (net.locals n).run.turns).Nodup)
    (hchannels : (channelsIn (net.locals n).run.turns).Nodup) {turn : Turn PeerId}
    (hturn : turn ∈ (net.locals n).run.turns) {target : PeerId} {reply : Channel}
    (hinput : turn.input = .command (.queryPeerAddress target) reply)
    (hasks : AddrProtocolCodec.Asks dep.addrFormats target) {addrs : List Multiaddr}
    (hsome : addrs ≠ []) (hmsg : (reply, .addresses addrs) ∈ sentIn (net.locals n).run.turns) :
    ∃ m, (∃ id : RequestId, ⟨.sendAddrRequest m ⟨target⟩, id⟩ ∈ turn.calls) ∧
      (dep.honest m → (∀ told ∈ (net.locals m).run.turns, ∀ peer named,
          told.named? = some (peer, named) → AddrProtocolCodec.Carries dep.addrFormats named) →
        ∃ earlier named, earlier <+: (net.locals m).run.turns ∧
          lastNamed earlier target = some named ∧ addrs = named.take u16Max) := by
  rcases answered_of_reply (p := .addr) hnet hn hids hchannels hturn hinput rfl hmsg with
    ⟨m, req, res, ⟨⟨id, hsend⟩, hanswered⟩, hres⟩ | ⟨error, hfailure⟩
  swap
  · exact absurd (Message.addresses.inj hfailure) hsome
  obtain rfl : addrs = res.addresses := Message.addresses.inj hres
  obtain ⟨s, _, -, -, hadmits⟩ := (run_of_reachable hnet n).admits hturn
  obtain ⟨reply', hcommand⟩ := hadmits _ hsend
  obtain rfl : req = ⟨target⟩ := by
    rw [hinput] at hcommand
    cases hcommand
    rfl
  refine ⟨m, ⟨id, hsend⟩, fun hm hcarries => ?_⟩
  obtain ⟨req', rest, written, bytes, rest', hasked, hanswers, hwrite, hread⟩ := hanswered hm
  have hback : AddrProtocolCodec.readRequest dep.addrFormats
      (AddrProtocolCodec.writeRequest dep.addrFormats ⟨target⟩ ++ []) = .ok (⟨target⟩, []) :=
    AddrProtocolCodec.readRequest_writeRequest hasks.parses hasks.pos hasks.short []
  rw [List.append_nil] at hback
  obtain ⟨rfl, -⟩ := Prod.mk.inj (Except.ok.inj (hasked.symm.trans hback))
  obtain rfl := Option.some.inj hwrite
  cases hanswers with
  | @addr s turns _ hearlier hreach =>
      have hbook : s.peerAddresses.lookup target = lastNamed turns target :=
        congrFun (addressBook_of_reachable hreach) target
      -- the response carries what the peer has, which is empty or was named
      have hsent : AddrProtocolCodec.Carries dep.addrFormats
          ((s.peerAddresses.lookup target).getD []) := by
        rw [hbook]
        rcases hlast : lastNamed turns target with _ | named
        · exact ⟨fun addr haddr => absurd haddr List.not_mem_nil, Nat.one_le_ofNat⟩
        · obtain ⟨told, htold, hnamed⟩ := exists_of_lastNamed hlast
          exact hcarries told (hearlier.subset htold) target named hnamed
      obtain ⟨rfl, -⟩ := Prod.mk.inj (Except.ok.inj (hread.symm.trans hsent.read_eq))
      rw [hbook] at hsome ⊢
      rcases hlast : lastNamed turns target with _ | named
      · rw [hlast] at hsome
        exact absurd List.take_nil hsome
      · exact ⟨turns, named, hearlier, hlast, rfl⟩

end Deployment

end Network

/-! ### Two nodes -/

section Pair

open Deployment

/-- An address of peer 2. -/
def namedAddrs : List Multiaddr := ["/ip4/127.0.0.1/tcp/4001"]

/-- Peer 2 identifies itself to node 1. -/
def tellTurn : Turn ℕ :=
  ⟨.event (.behaviour (.identifyReceived 2 namedAddrs)),
    [⟨.addAddress 2 "/ip4/127.0.0.1/tcp/4001", ()⟩]⟩

/-- What node 1 keeps of it. -/
def toldState : NodeState ℕ :=
  { NodeState.initial (pairDeployment.config 1) with
    peerAddresses := AList.insert 2 namedAddrs ∅ }

/-- Node 0 asks node 1 for the addresses of peer 2. -/
def askAddrTurn : Turn ℕ :=
  ⟨.command (.queryPeerAddress 2) 0,
    [⟨.connectedPeers, ([1] : List ℕ)⟩, ⟨.sendAddrRequest 1 ⟨2⟩, (7 : ℕ)⟩]⟩

/-- Node 1 answers. -/
def serveAddrTurn : Turn ℕ :=
  ⟨.event (.behaviour (.addr (.request ⟨2⟩ 4))), [⟨.sendAddrResponse 4 ⟨namedAddrs⟩, ()⟩]⟩

/-- Node 0 gets the answer. -/
def getAddrTurn : Turn ℕ :=
  ⟨.event (.behaviour (.addr (.response 7 ⟨namedAddrs⟩))),
    [⟨.reply 0 (.addresses namedAddrs), ()⟩]⟩

def servedAddrStreams : Streams ℕ :=
  Function.update (fun _ _ => none) .addr (Function.update (fun _ => none) 4 (some (0, 7)))

def toldBookNet : Parties.Network ℕ (Host ℕ) (Packet ℕ) :=
  afterTurn pairStart 1 tellTurn toldState (fun _ _ => none) []

def askedAddrNet : Parties.Network ℕ (Host ℕ) (Packet ℕ) :=
  afterTurn toldBookNet 0 askAddrTurn
    ((NodeState.initial (pairDeployment.config 0)).insert .addrQueries 7 0) (fun _ _ => none)
    [.request .addr 0 1 7 (AddrProtocolCodec.writeRequest AddrProtocolCodec.sampleFormats ⟨2⟩)]

def servedAddrNet : Parties.Network ℕ (Host ℕ) (Packet ℕ) :=
  afterTurn askedAddrNet 1 serveAddrTurn toldState servedAddrStreams
    [.response .addr 0 1 7
      (AddrProtocolCodec.writeResponse AddrProtocolCodec.sampleFormats ⟨namedAddrs⟩)]

def toldAddrNet : Parties.Network ℕ (Host ℕ) (Packet ℕ) :=
  afterTurn servedAddrNet 0 getAddrTurn
    (((NodeState.initial (pairDeployment.config 0)).insert .addrQueries 7 0).remove .addrQueries 7)
    (fun _ _ => none) []

/-- The peer 2 can be asked for. -/
theorem asks_sample : AddrProtocolCodec.Asks AddrProtocolCodec.sampleFormats 2 :=
  ⟨rfl, by decide, by decide⟩

/-- The addresses can be sent. -/
theorem carries_sample : AddrProtocolCodec.Carries AddrProtocolCodec.sampleFormats namedAddrs :=
  ⟨fun addr haddr => by
    obtain rfl := List.mem_singleton.mp haddr
    exact ⟨by decide, by decide⟩, by decide⟩

/-- Node 0 asks, node 1 answers, and node 0 is told. -/
theorem reachable_toldAddrNet : pairDeployment.Reachable toldAddrNet := by
  have hask := AddrProtocolCodec.readRequest_writeRequest asks_sample.parses asks_sample.pos
    asks_sample.short []
  rw [List.append_nil] at hask
  have htold : pairDeployment.Reachable toldBookNet :=
    reachable_afterTurn reachable_pairStart trivial (.other rfl)
      (runs_call_iff.mpr ⟨(), [], rfl, .ret _⟩) rfl
  have hasked : pairDeployment.Reachable askedAddrNet :=
    reachable_afterTurn htold trivial (.other rfl)
      (runs_call_iff.mpr ⟨([1] : List ℕ), _, rfl, runs_call_iff.mpr ⟨(7 : ℕ), [], rfl, .ret _⟩⟩) rfl
  have hserved : pairDeployment.Reachable servedAddrNet :=
    reachable_afterTurn hasked trivial (.request (p := .addr) List.mem_cons_self hask rfl)
      (runs_call_iff.mpr ⟨(), [], rfl, .ret _⟩) rfl
  exact reachable_afterTurn hserved trivial
    (.response (p := .addr) (List.mem_append_right _ List.mem_cons_self) carries_sample.read_eq)
    (runs_call_iff.mpr ⟨(), [], rfl, .ret _⟩) rfl

/-- Node 0 is told what peer 2 has told node 1. -/
theorem addresses_genuine_pair :
    ∃ m, (∃ id : RequestId, ⟨.sendAddrRequest m ⟨2⟩, id⟩ ∈ askAddrTurn.calls) ∧
      (pairDeployment.honest m → (∀ told ∈ (toldAddrNet.locals m).run.turns, ∀ peer named,
          told.named? = some (peer, named) →
            AddrProtocolCodec.Carries pairDeployment.addrFormats named) →
        ∃ earlier named, earlier <+: (toldAddrNet.locals m).run.turns ∧
          lastNamed earlier 2 = some named ∧ namedAddrs = named.take u16Max) :=
  addresses_genuine reachable_toldAddrNet (n := 0) trivial (by decide) (by decide)
    (List.mem_cons_self : askAddrTurn ∈ [askAddrTurn, getAddrTurn]) rfl asks_sample
    (List.cons_ne_nil _ _) (by decide)

end Pair

end ZingCdn
