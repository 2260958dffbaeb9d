import ZingCdn.Reannounce
import ZingCdn.Resolver

/-!
# Bootstrap Addresses

An operator names a bootstrap peer by one multiaddress, which ends in the id of the peer. The
command line, the desktop application and the two `peers_add` requests all split it into the
peer, which is the first `p2p` component anywhere, and an address, which is whatever is left
without the last component; the node pushes the peer back when it dials. The two fit together
only when the peer is the last component. A relay address names two peers, and the node then
dials an address that nobody supplied.

A multiaddress is the list of its components here. Its text is read by `Multiaddr::from_str`,
and `formats.pushP2p` is the push of the node over the addresses of `ZingCdn.P2pNode`.

## Main results

* `splitPeer_restores_iff`: when pushing back the peer restores the address.
* `startup_made`: the calls at the start of the node.
* `bootstrap_addresses_iff`: which multiaddresses are dialled as given or rejected.
* `not_relay_dialled_as_given`: a relay address.
-/

open Program Program.Prog

namespace ZingCdn

variable {PeerId : Type}

/-! ### Splitting a multiaddress -/

/-- A component of a multiaddress: the id of a peer, or another component by its text. -/
inductive Protocol (PeerId : Type)
  | p2p (peer : PeerId)
  | other (text : String)
deriving DecidableEq

/-- The functions of multiaddresses. -/
structure MultiaddrLib (PeerId : Type) where
  /-- `Multiaddr::from_str` -/
  fromStr : String → Option (List (Protocol PeerId))
  /-- the address with some components -/
  ofComponents : List (Protocol PeerId) → Multiaddr

/-- The loop that looks for the first `P2p` component and breaks there. -/
def firstP2p : List (Protocol PeerId) → Option PeerId
  | [] => none
  | .p2p peer :: _ => some peer
  | .other _ :: rest => firstP2p rest

/-- `if let Protocol::P2p(peer) = p`. -/
def Protocol.peer? : Protocol PeerId → Option PeerId
  | .p2p peer => some peer
  | .other _ => none

variable (lib : MultiaddrLib PeerId)

/-- `parse_bootstrap_peers` of the command line. -/
def Cli.parseBootstrapPeers (inputs : List String) : List (PeerId × List (Protocol PeerId)) :=
  inputs.filterMap fun s => do
    let addr ← lib.fromStr s
    let peerId ← firstP2p addr
    pure (peerId, addr.dropLast)

/-- `parse_bootstrap_peers` of the desktop application. -/
def Gui.parseBootstrapPeers (peers : List String) : List (PeerId × List (Protocol PeerId)) :=
  peers.filterMap fun s => do
    let addr ← lib.fromStr s
    let peerId ← addr.findSome? Protocol.peer?
    pure (peerId, addr.dropLast)

/-! ### Adding a peer -/

section Adding

variable [DecidableEq PeerId]

/-- Wait until the peer is connected, looking so many times. -/
def awaitConnected (peerId : PeerId) : ℕ → Action PeerId Unit
  | 0 => pure ()
  | n + 1 => do
      ask (.sleep 300)
      let sent ← sendCmd .getConnectedPeers
      if sent then do
        let connected : Option (List PeerId) ← awaitReply .getConnectedPeers none
        if peerId ∈ connected.getD [] then pure ()
        else awaitConnected peerId n
      else pure ()

/-- `peers_add`: the result, and the list of bootstrap peers after it, from the one that the
lock finds. -/
def peersAdd (bootstrapPeers : List String) (addrStr : String) :
    Action PeerId (Except String Unit × List String) :=
  match lib.fromStr addrStr with
  | none => pure (.error ("invalid multiaddr — expected format: " ++
      "/ip4/<ip>/udp/<port>/quic-v1/p2p/<peer_id>"), bootstrapPeers)
  | some addr =>
      match firstP2p addr with
      | none => pure (.error "multiaddr must contain /p2p/ protocol", bootstrapPeers)
      | some peerId => do
          let addrNoP2p := lib.ofComponents addr.dropLast
          let sent ← sendCmd (.addBootstrapPeer peerId addrNoP2p)
          if sent then do
            let sent ← sendCmd (.dial peerId addrNoP2p)
            if sent then do
              awaitConnected peerId 15
              let _ ← sendCmd .bootstrap
              pure (.ok (), if addrStr ∈ bootstrapPeers then bootstrapPeers
                else bootstrapPeers ++ [addrStr])
            else pure (.error "channel closed", bootstrapPeers)
          else pure (.error "channel closed", bootstrapPeers)

/-- `peers_add` of the node. -/
def Cli.peersAdd : List String → String → Action PeerId (Except String Unit × List String) :=
  ZingCdn.peersAdd lib

/-- `peers_add` of the desktop application. -/
def Gui.peersAdd : List String → String → Action PeerId (Except String Unit × List String) :=
  ZingCdn.peersAdd lib

end Adding

/-! ### The first peer and the last component -/

section Components

variable {input : List (Protocol PeerId)}

/-- The two copies of the search agree. -/
theorem findSome?_peer? (addr : List (Protocol PeerId)) :
    addr.findSome? Protocol.peer? = firstP2p addr := by
  induction addr with
  | nil => rfl
  | cons protocol rest ih =>
      cases protocol with
      | p2p peer => rfl
      | other text => exact ih

theorem firstP2p_eq_none_iff : firstP2p input = none ↔ ∀ peer, .p2p peer ∉ input := by
  induction input with
  | nil => simp [firstP2p]
  | cons protocol rest ih =>
      cases protocol with
      | p2p peer => exact iff_of_false (by rintro ⟨⟩) fun h => h peer List.mem_cons_self
      | other text => simpa [firstP2p] using ih

/-- The address names one peer, at its end. -/
def EndsInPeer (input : List (Protocol PeerId)) : Prop :=
  ∃ addr peer, input = addr ++ [.p2p peer] ∧ ∀ other, .p2p other ∉ addr

/-- The first peer of such an address is its last component. -/
theorem firstP2p_append {addr : List (Protocol PeerId)} (peer : PeerId)
    (haddr : ∀ other, .p2p other ∉ addr) : firstP2p (addr ++ [.p2p peer]) = some peer := by
  induction addr with
  | nil => rfl
  | cons protocol rest ih =>
      cases protocol with
      | p2p other => exact absurd List.mem_cons_self (haddr other)
      | other text => exact ih fun other hmem => haddr other (List.mem_cons_of_mem _ hmem)

end Components

/-! ### What is dialed -/

section Dials

variable {formats : NodeFormats PeerId} {config : NodeConfig PeerId}

/-- **The calls at the start** of the node: it listens, registers the addresses it was given,
and dials each bootstrap peer with the peer pushed to its address. -/
theorem startup_made {calls : NodeCalls PeerId} {s : NodeState PeerId}
    (hrun : (startup formats config).Runs calls (some (.ok s))) :
    made calls = .listenOn config.listenAddr :: config.externalAddrs.map .addExternalAddress ++
      config.bootstrapAddrs.map (fun p => .addAddress p.1 p.2) ++
        config.bootstrapAddrs.map fun p => .dial (formats.pushP2p p.2 p.1) := by
  have hmeets : Meets (.under fun _ _ => True) [] (startup formats config) fun calls r =>
      ∀ s, r = .ok s → made calls = .listenOn config.listenAddr ::
        config.externalAddrs.map .addExternalAddress ++
          config.bootstrapAddrs.map (fun p => .addAddress p.1 p.2) ++
            config.bootstrapAddrs.map fun p => .dial (formats.pushP2p p.2 p.1) := by
    refine ⟨trivial, fun listening _ => ?_⟩
    rcases listening with e | _
    · rintro s ⟨⟩
    · refine (meets_callAll _).bind fun _ _ _ hexternal => ?_
      obtain ⟨external, rfl, hexternal⟩ := hexternal
      refine (meets_callAll _).bind fun _ _ _ hadded => ?_
      obtain ⟨added, rfl, hadded⟩ := hadded
      refine (meets_callAll _).bind fun _ _ _ hdialed => ?_
      obtain ⟨dialed, rfl, hdialed⟩ := hdialed
      rintro s -
      rw [made_append, made_append, made_append, hexternal, hadded, hdialed]
      rfl
  obtain ⟨_, heq, hmade⟩ := hmeets.ends hrun fun _ _ => trivial
  obtain rfl := Option.some.inj heq
  exact hmade s rfl

/-- The start dials the bootstrap peers, and nobody else. -/
theorem startup_dials_iff {calls : NodeCalls PeerId} {s : NodeState PeerId}
    (hrun : (startup formats config).Runs calls (some (.ok s))) {a : Multiaddr} :
    .dial a ∈ made calls ↔ ∃ p ∈ config.bootstrapAddrs, formats.pushP2p p.2 p.1 = a := by
  rw [startup_made hrun]
  simp

/-- The command to dial a peer dials the address with the peer pushed to it. -/
theorem dial_made [DecidableEq PeerId] {s s' : NodeState PeerId} {peer : PeerId}
    {addr : Multiaddr} {reply : Channel} {calls : NodeCalls PeerId}
    (hrun : (s.handleCommand formats (.dial peer addr) reply).Runs calls (some s')) :
    made calls = [.dial (formats.pushP2p addr peer)] := by
  have hmeets : Meets (.under fun _ _ => True) []
      (s.handleCommand formats (.dial peer addr) reply) fun calls _ =>
        made calls = [.dial (formats.pushP2p addr peer)] := by
    refine (meets_callAll _).bind fun _ _ _ hmade => ?_
    obtain ⟨calls, rfl, hmade⟩ := hmade
    exact hmade
  obtain ⟨_, -, hmade⟩ := hmeets.ends hrun fun _ _ => trivial
  exact hmade

end Dials

/-! ### What is split -/

section Splits

variable {lib : MultiaddrLib PeerId} {addrStr : String} {input : List (Protocol PeerId)}

/-- The split of a multiaddress. -/
def splitPeer (input : List (Protocol PeerId)) : Option (PeerId × List (Protocol PeerId)) :=
  (firstP2p input).map (·, input.dropLast)

/-- **When pushing back the peer restores the address**: when it is the last component. -/
theorem splitPeer_restores_iff {peer : PeerId} {addr : List (Protocol PeerId)}
    (hsplit : splitPeer input = some (peer, addr)) :
    addr ++ [.p2p peer] = input ↔ input.getLast? = some (.p2p peer) := by
  obtain ⟨_, -, heq⟩ := Option.map_eq_some_iff.mp hsplit
  obtain ⟨rfl, rfl⟩ := Prod.mk.inj heq
  constructor
  · intro hrestored
    rw [← hrestored, List.getLast?_concat]
  · exact fun hlast => List.dropLast_append_getLast? _ hlast

/-- Both copies accept the same pairs, for each text on its own. -/
theorem Gui.parseBootstrapPeers_eq : Gui.parseBootstrapPeers lib = Cli.parseBootstrapPeers lib := by
  funext inputs
  rw [Gui.parseBootstrapPeers, Cli.parseBootstrapPeers]
  simp only [findSome?_peer?]

theorem Cli.mem_parseBootstrapPeers_iff {inputs : List String}
    {pair : PeerId × List (Protocol PeerId)} : pair ∈ Cli.parseBootstrapPeers lib inputs ↔
      ∃ addrStr ∈ inputs, ∃ input, lib.fromStr addrStr = some input ∧
        splitPeer input = some pair := by
  rw [Cli.parseBootstrapPeers, List.mem_filterMap]
  refine exists_congr fun addrStr => and_congr_right fun _ => ?_
  cases lib.fromStr addrStr with
  | none => simp
  | some input =>
      simp only [Option.bind_eq_bind, Option.bind_some, Option.some.injEq, exists_eq_left',
        splitPeer]
      cases firstP2p input <;> simp

variable [DecidableEq PeerId]

/-- The commands to dial are of some kind. -/
def dialing (P : PeerId → Multiaddr → Prop) : Contract (@Effect.Ans PeerId) where
  rely _ _ _ := True
  guarantee _ e := ∀ peer a, e = .send (.dial peer a) → P peer a
  mayPanic := False

theorem meets_awaitConnected (P : PeerId → Multiaddr → Prop) (peerId : PeerId) (n : ℕ)
    {h : Trace PeerId} :
    Meets (dialing P) h (awaitConnected peerId n) fun _ _ => True := by
  induction n generalizing h with
  | zero => trivial
  | succ n ih =>
      refine ⟨by rintro _ _ ⟨⟩, fun _ _ => ⟨by rintro _ _ ⟨⟩, fun sent _ => ?_⟩⟩
      cases sent with
      | false => trivial
      | true =>
          refine ⟨by rintro _ _ ⟨⟩, fun connected _ => ?_⟩
          exact Meets.ite (fun _ => trivial) fun _ => ih

/-- A request to add a peer asks for one address to be dialed, that of the split. -/
theorem meets_peersAdd (bootstrapPeers : List String) {h : Trace PeerId} :
    Meets (dialing fun peer a => ∃ input addr, lib.fromStr addrStr = some input ∧
        splitPeer input = some (peer, addr) ∧ a = lib.ofComponents addr) h
      (peersAdd lib bootstrapPeers addrStr) fun _ _ => True := by
  rw [peersAdd]
  cases hinput : lib.fromStr addrStr with
  | none => trivial
  | some input =>
      dsimp only
      cases hpeer : firstP2p input with
      | none => trivial
      | some peerId =>
          refine ⟨by rintro _ _ ⟨⟩, fun sent _ => ?_⟩
          cases sent with
          | false => trivial
          | true =>
              refine ⟨?_, fun sent _ => ?_⟩
              · rintro _ _ ⟨⟩
                exact ⟨input, input.dropLast, rfl, by rw [splitPeer, hpeer]; rfl, rfl⟩
              · cases sent with
                | false => trivial
                | true =>
                    refine (meets_awaitConnected _ peerId 15).bind fun _ _ _ _ => ?_
                    exact ⟨by rintro _ _ ⟨⟩, fun _ _ => trivial⟩

/-- A request to add a peer sends no other command to dial than that of the split. -/
theorem peersAdd_dials {bootstrapPeers : List String} {t : Trace PeerId}
    {o : Option (Except String Unit × List String)}
    (hrun : (peersAdd lib bootstrapPeers addrStr).Runs t o) {peer : PeerId} {a : Multiaddr}
    {sent : Bool} (hsent : ⟨.send (.dial peer a), sent⟩ ∈ t) :
    ∃ input addr, lib.fromStr addrStr = some input ∧ splitPeer input = some (peer, addr) ∧
      a = lib.ofComponents addr := by
  obtain ⟨pre, post, ht⟩ := List.append_of_mem hsent
  exact (meets_peersAdd bootstrapPeers).effect hrun ht (respects_of_forall (fun _ _ => trivial) [])
    peer a rfl

/-- A request to add a multiaddress without a peer is rejected at once. -/
theorem peersAdd_of_none (hinput : lib.fromStr addrStr = some input)
    (hpeer : firstP2p input = none) (bootstrapPeers : List String) :
    peersAdd lib bootstrapPeers addrStr
      = pure (.error "multiaddr must contain /p2p/ protocol", bootstrapPeers) := by
  rw [peersAdd, hinput]
  dsimp only
  rw [hpeer]

end Splits

/-! ### Dialled as given -/

/-- `push` appends a component. -/
def Pushes (lib : MultiaddrLib PeerId) (formats : NodeFormats PeerId) : Prop :=
  ∀ addr peer, formats.pushP2p (lib.ofComponents addr) peer = lib.ofComponents (addr ++ [.p2p peer])

/-- A multiaddress is dialled as given: pushing back the peer restores it, the node dials it at
its start and on the commands of a request to add it, and it is rejected when that cannot be. -/
structure DialledAsGiven [DecidableEq PeerId] (lib : MultiaddrLib PeerId)
    (formats : NodeFormats PeerId) (addrStr : String) (input : List (Protocol PeerId)) :
    Prop where
  split : ∀ parse ∈ [Cli.parseBootstrapPeers lib, Gui.parseBootstrapPeers lib],
    ∀ peer addr, (peer, addr) ∈ parse [addrStr] → addr ++ [.p2p peer] = input
  started : ∀ parse ∈ [Cli.parseBootstrapPeers lib, Gui.parseBootstrapPeers lib],
    ∀ config s calls,
      config.bootstrapAddrs = (parse [addrStr]).map (Prod.map id lib.ofComponents) →
        (startup formats config).Runs calls (some (.ok s)) →
          ∀ a, .dial a ∈ made calls → a = lib.ofComponents input
  added : ∀ add ∈ [Cli.peersAdd lib, Gui.peersAdd lib], ∀ bootstrapPeers t o,
    (add bootstrapPeers addrStr).Runs t o → ∀ peer a sent, ⟨.send (.dial peer a), sent⟩ ∈ t →
      ∀ (s s' : NodeState PeerId) reply calls,
        (s.handleCommand formats (.dial peer a) reply).Runs calls (some s') →
          made calls = [.dial (lib.ofComponents input)]
  rejected : ¬ EndsInPeer input →
    (∀ parse ∈ [Cli.parseBootstrapPeers lib, Gui.parseBootstrapPeers lib],
      parse [addrStr] = []) ∧
    ∀ add ∈ [Cli.peersAdd lib, Gui.peersAdd lib], ∀ bootstrapPeers t o,
      (add bootstrapPeers addrStr).Runs t o → t = [] ∧ ∃ e, o = some (.error e, bootstrapPeers)

section Given

variable {lib : MultiaddrLib PeerId} {formats : NodeFormats PeerId}
  {addrStr : String} {input : List (Protocol PeerId)}

/-- The pairs that are accepted for one text. -/
theorem mem_parse_iff (hinput : lib.fromStr addrStr = some input)
    {parse : List String → List (PeerId × List (Protocol PeerId))}
    (hparse : parse ∈ [Cli.parseBootstrapPeers lib, Gui.parseBootstrapPeers lib])
    {pair : PeerId × List (Protocol PeerId)} :
    pair ∈ parse [addrStr] ↔ splitPeer input = some pair := by
  obtain rfl : parse = Cli.parseBootstrapPeers lib := by
    simpa [Gui.parseBootstrapPeers_eq] using hparse
  rw [Cli.mem_parseBootstrapPeers_iff]
  simp [hinput]

variable [DecidableEq PeerId]

/-- A split that fits, or none, is all that matters. -/
theorem dialledAsGiven_of (hpush : Pushes lib formats) (hinput : lib.fromStr addrStr = some input)
    (hsplit : ∀ peer addr, splitPeer input = some (peer, addr) → addr ++ [.p2p peer] = input)
    (hrejected : ¬ EndsInPeer input → firstP2p input = none) :
    DialledAsGiven lib formats addrStr input where
  split parse hparse peer addr hmem := hsplit peer addr ((mem_parse_iff hinput hparse).mp hmem)
  started parse hparse config s calls hconfig hrun a hdial := by
    obtain ⟨_, hmem, rfl⟩ := (startup_dials_iff hrun).mp hdial
    rw [hconfig] at hmem
    obtain ⟨⟨peer, addr⟩, hpair, rfl⟩ := List.mem_map.mp hmem
    show formats.pushP2p (lib.ofComponents addr) peer = _
    rw [hpush, hsplit peer addr ((mem_parse_iff hinput hparse).mp hpair)]
  added add hadd bootstrapPeers t o hrun peer a sent hsent s s' reply calls hdial := by
    obtain rfl : add = peersAdd lib := by simpa [Cli.peersAdd, Gui.peersAdd] using hadd
    obtain ⟨_, addr, hinput', hpair, rfl⟩ := peersAdd_dials hrun hsent
    obtain rfl := Option.some.inj (hinput.symm.trans hinput')
    rw [dial_made hdial, hpush, hsplit peer addr hpair]
  rejected hnot := by
    have hnone := hrejected hnot
    refine ⟨fun parse hparse => ?_, fun add hadd bootstrapPeers t o hrun => ?_⟩
    · refine List.eq_nil_iff_forall_not_mem.mpr fun pair hmem => ?_
      rw [mem_parse_iff hinput hparse, splitPeer, hnone] at hmem
      cases hmem
    · obtain rfl : add = peersAdd lib := by simpa [Cli.peersAdd, Gui.peersAdd] using hadd
      rw [peersAdd_of_none hinput hnone] at hrun
      obtain ⟨rfl, rfl⟩ := runs_ret_iff.mp hrun
      exact ⟨rfl, _, rfl⟩

/-- **Which multiaddresses are dialled as given** or rejected: those without a peer, and those
that name one peer, at their end. -/
theorem bootstrap_addresses_iff (hpush : Pushes lib formats)
    (hinput : lib.fromStr addrStr = some input) :
    DialledAsGiven lib formats addrStr input ↔ (∀ peer, .p2p peer ∉ input) ∨ EndsInPeer input := by
  constructor
  · intro hgiven
    by_contra hnot
    obtain ⟨hsome, hends⟩ := not_or.mp hnot
    obtain ⟨peer, hpeer⟩ := Option.ne_none_iff_exists'.mp fun h =>
      hsome (firstP2p_eq_none_iff.mp h)
    have hcli : Cli.parseBootstrapPeers lib ∈
        [Cli.parseBootstrapPeers lib, Gui.parseBootstrapPeers lib] := List.mem_cons_self
    have haccepted : (peer, input.dropLast) ∈ Cli.parseBootstrapPeers lib [addrStr] :=
      (mem_parse_iff hinput hcli).mpr (by rw [splitPeer, hpeer]; rfl)
    rw [(hgiven.rejected hends).1 _ hcli] at haccepted
    cases haccepted
  · rintro (hnone | hends)
    · have hfirst := firstP2p_eq_none_iff.mpr hnone
      refine dialledAsGiven_of hpush hinput ?_ fun _ => hfirst
      intro peer addr hsplit
      rw [splitPeer, hfirst] at hsplit
      cases hsplit
    · refine dialledAsGiven_of hpush hinput ?_ fun h => absurd hends h
      obtain ⟨addr, peer, rfl, haddr⟩ := hends
      intro peer' addr' hsplit
      rw [splitPeer_restores_iff hsplit, List.getLast?_concat]
      -- the first peer of the address is its last component
      rw [splitPeer, firstP2p_append peer haddr] at hsplit
      obtain ⟨rfl, -⟩ := Prod.mk.inj (Option.some.inj hsplit)
      rfl

end Given

/-! ### A relay address -/

section Relay

/-- The text of some components. -/
def componentsText : List (Protocol ℕ) → Multiaddr
  | [] => ""
  | .p2p peer :: rest => "/p2p/" ++ toString peer ++ componentsText rest
  | .other text :: rest => text ++ componentsText rest

/-- The address of the peer 1. -/
def directAddr : List (Protocol ℕ) :=
  [.other "/ip4/203.0.113.7", .other "/udp/4001", .other "/quic-v1", .p2p 1]

/-- The address of the peer 2 through the peer 1. -/
def relayAddr : List (Protocol ℕ) := directAddr ++ [.other "/p2p-circuit", .p2p 2]

def directText : String := "/ip4/203.0.113.7/udp/4001/quic-v1/p2p/1"

def relayText : String := "/ip4/203.0.113.7/udp/4001/quic-v1/p2p/1/p2p-circuit/p2p/2"

/-- The two texts and their components. -/
def relayLib : MultiaddrLib ℕ where
  fromStr s := [(directText, directAddr), (relayText, relayAddr)].lookup s
  ofComponents := componentsText

/-- The push on texts. -/
def relayFormats : NodeFormats ℕ :=
  ⟨fun _ => [], fun _ => true, fun addr peer => addr ++ ("/p2p/" ++ toString peer),
    fun e => .error e⟩

theorem pushes_relay : Pushes relayLib relayFormats := by
  intro addr peer
  show componentsText addr ++ ("/p2p/" ++ toString peer) = componentsText (addr ++ [.p2p peer])
  induction addr with
  | nil => rw [componentsText, List.nil_append, componentsText, componentsText]; simp
  | cons protocol rest ih =>
      cases protocol with
      | p2p other =>
          rw [List.cons_append, componentsText, componentsText, ← ih, String.append_assoc]
      | other text =>
          rw [List.cons_append, componentsText, componentsText, ← ih, String.append_assoc]

theorem bootstrap_addresses_direct :
    DialledAsGiven relayLib relayFormats directText directAddr :=
  (bootstrap_addresses_iff pushes_relay rfl).mpr
    (.inr ⟨directAddr.dropLast, 1, rfl, by simp [directAddr]⟩)

/-- **A relay address is not dialled as given**: the peer is the relay, the address that is left
ends in the circuit, and the node dials the relay through itself. -/
theorem not_relay_dialled_as_given :
    relayLib.fromStr relayText = some relayAddr ∧
      Cli.parseBootstrapPeers relayLib [relayText]
        = [(1, directAddr ++ [.other "/p2p-circuit"])] ∧
      relayFormats.pushP2p (relayLib.ofComponents (directAddr ++ [.other "/p2p-circuit"])) 1
        = "/ip4/203.0.113.7/udp/4001/quic-v1/p2p/1/p2p-circuit/p2p/1" ∧
      ¬ DialledAsGiven relayLib relayFormats relayText relayAddr := by
  refine ⟨rfl, rfl, rfl, fun hgiven => ?_⟩
  have hsplit := hgiven.split _ List.mem_cons_self 1 (directAddr ++ [.other "/p2p-circuit"])
    List.mem_cons_self
  cases hsplit

end Relay

end ZingCdn
