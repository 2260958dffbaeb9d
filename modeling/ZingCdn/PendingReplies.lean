import ZingCdn.Library.Correlation
import ZingCdn.P2pNode

/-!
# The Table of Pending Replies

The seven maps of the node's loop are one table of pending requests, whose keys are pairs of
a map and an id. A command that asks the swarm for something opens a request under the id it
is handed out; an event that reports on an id answers the request under it, in each map that
waits for such events. What a turn of the loop does at its maps and at the reply channels is
what these acts do at the table of `Correlation`.

## Main results

* `NodeState.plays_settle`: taking a channel out of a map and sending on it is an answer.
* `NodeState.plays_handleSwarmEvent`: an event plays its answers, and nothing else.
* `NodeState.meets_handleCommand`: what a command does at the table and says with its calls.
* `NodeState.turnPlayed`: one turn of the loop.
-/

open Program Program.Prog Correlation

namespace ZingCdn

variable {PeerId : Type}

/-! ### What the calls of a turn say -/

/-- What a call sends on a reply channel. -/
def NodeCall.sent? : NodeCall PeerId → Option (Channel × Message PeerId)
  | .reply channel msg => some (channel, msg)
  | _ => none

/-- The messages sent on reply channels. -/
def sent (calls : NodeCalls PeerId) : List (Channel × Message PeerId) :=
  calls.filterMap fun ev => ev.1.sent?

/-- The id that a call was answered with, and the behaviour it is from. -/
def issued? : Event (@NodeCall.Ans PeerId) → Option (IdSpace × RequestId)
  | ⟨.getProviders _, id⟩ | ⟨.getRecord _, id⟩ => some (.kad, id)
  | ⟨.startProviding _, started⟩ => (started : Except String RequestId).toOption.map (.kad, ·)
  | ⟨.putRecord _ _, started⟩ => (started : Except String RequestId).toOption.map (.kad, ·)
  | ⟨.bootstrap, started⟩ => (started : Except String RequestId).toOption.map (.kad, ·)
  | ⟨.sendBlobRequest _ _, id⟩ => some (.data, id)
  | ⟨.sendRangeRequest _ _, id⟩ => some (.range, id)
  | ⟨.sendSliverRequest _ _, id⟩ => some (.sliver, id)
  | ⟨.sendAddrRequest _ _, id⟩ => some (.addr, id)
  | _ => none

/-- The ids that the swarm has handed out. -/
def issued (calls : NodeCalls PeerId) : List (IdSpace × RequestId) := calls.filterMap issued?

/-- What two lists of calls send. -/
@[simp] theorem sent_append (calls calls' : NodeCalls PeerId) :
    sent (calls ++ calls') = sent calls ++ sent calls' := List.filterMap_append

/-! ### Commands and events as acts at the table -/

/-- The map in which a command waits for its reply. -/
def P2pCommand.slot? : P2pCommand PeerId → Option Slot
  | .findProviders _ => some .finds
  | .fetchBlob .. => some .fetches
  | .fetchRange .. => some .rangeFetches
  | .fetchSliver .. => some .sliverFetches
  | .queryPeerAddress _ => some .addrQueries
  | .getPeerSuiAddress _ => some .suiAddrQueries
  | .getPeerVault _ => some .vaultQueries
  | _ => none

/-- The reply channel that an input brings. -/
def NodeInput.channel? : NodeInput PeerId → Option Channel
  | .command cmd reply => if cmd.slot?.isSome || cmd.answeredAtOnce then some reply else none
  | _ => none

/-- The outcome of an outbound request. -/
def RequestResponseEvent.outcome? {Req Resp : Type} :
    RequestResponseEvent PeerId Req Resp → Option (RequestId × Except String Resp)
  | .response id resp => some (id, .ok resp)
  | .outboundFailure id _ error => some (id, .error error)
  | _ => none

/-- The id of the request or query that an event is about, and the behaviour it is from. -/
def SwarmEvent.id? : SwarmEvent PeerId → Option (IdSpace × RequestId)
  | .behaviour (.kad (.outboundQueryProgressed id _)) => some (.kad, id)
  | .behaviour (.data event) => event.outcome?.map fun outcome => (.data, outcome.1)
  | .behaviour (.range event) => event.outcome?.map fun outcome => (.range, outcome.1)
  | .behaviour (.sliver event) => event.outcome?.map fun outcome => (.sliver, outcome.1)
  | .behaviour (.addr event) => event.outcome?.map fun outcome => (.addr, outcome.1)
  | _ => none

/-- The maps of the queries of a kind. -/
def QueryResult.slots : QueryResult PeerId → List Slot
  | .getProviders _ => [.finds]
  | .getRecord _ => [.suiAddrQueries, .vaultQueries]
  | _ => []

/-- The event reports the outcome of a request: a response or a failure, or a result of a
query of its kind. -/
def SwarmEvent.Reports (event : SwarmEvent PeerId) (slot : Slot) (id : RequestId) : Prop :=
  match event with
  | .behaviour (.kad (.outboundQueryProgressed id' result)) => id' = id ∧ slot ∈ result.slots
  | event => event.id? = some (slot.idSpace, id)

/-- The message that the outcome of a fetch is turned into. -/
def fetchMessage {Resp : Type} (data : Resp → Option Bytes) :
    Except String Resp → Message PeerId
  | .ok response => NodeState.fetched (data response)
  | .error error => .data (.error (.p2pNetwork error))

/-- The message that the outcome of an address query is turned into. -/
def addrMessage : Except String AddrResponse → Message PeerId
  | .ok response => .addresses response.addresses
  | .error _ => .addresses []

/-- The messages that a result of a query is turned into. -/
def QueryResult.messages : QueryResult PeerId → List (Slot × Message PeerId)
  | .getProviders (.ok (.foundProviders providers)) => [(.finds, .peers providers)]
  | .getProviders _ => [(.finds, .peers [])]
  | .getRecord (.ok ok) =>
      [(.suiAddrQueries, .record (getRecordValue ok)), (.vaultQueries, .record (getRecordValue ok))]
  | .getRecord (.error _) => [(.suiAddrQueries, .record none), (.vaultQueries, .record none)]
  | _ => []

/-- The messages that an event is turned into, with the maps that hold their channels. -/
def SwarmEvent.messages : SwarmEvent PeerId → List (Slot × Message PeerId)
  | .behaviour (.kad (.outboundQueryProgressed _ result)) => result.messages
  | .behaviour (.data event) =>
      event.outcome?.toList.map fun outcome => (.fetches, fetchMessage BlobResponse.data outcome.2)
  | .behaviour (.range event) =>
      event.outcome?.toList.map fun outcome =>
        (.rangeFetches, fetchMessage RangeResponse.data outcome.2)
  | .behaviour (.sliver event) =>
      event.outcome?.toList.map fun outcome =>
        (.sliverFetches, fetchMessage SliverResponse.data outcome.2)
  | .behaviour (.addr event) =>
      event.outcome?.toList.map fun outcome => (.addrQueries, addrMessage outcome.2)
  | _ => []

/-- What happens at the table of pending requests. -/
abbrev NodeAct (PeerId : Type) : Type := Act (Slot × RequestId) Channel (Message PeerId)

/-- The answers that an event brings. -/
def SwarmEvent.answers (event : SwarmEvent PeerId) : List (NodeAct PeerId) :=
  event.id?.toList.flatMap fun (_, id) =>
    event.messages.map fun message => .answer (message.1, id) message.2

/-- A command opens a request under the id it is handed out, or it is replied directly. -/
def P2pCommand.acts (cmd : P2pCommand PeerId) (reply : Channel) (calls : NodeCalls PeerId) :
    List (NodeAct PeerId) :=
  match cmd.slot?, issued calls with
  | some slot, (_, id) :: _ => [.request (slot, id) reply]
  | _, _ => (sent calls).map fun message => .direct message.1 message.2

/-- A turn of the loop as acts at the table. -/
def Turn.acts (turn : Turn PeerId) : List (NodeAct PeerId) :=
  match turn.input with
  | .command cmd reply => cmd.acts reply turn.calls
  | .event event => event.answers
  | .tick => []

/-! ### Every turn plays its acts -/

/-- The table of the pending requests. -/
def NodeState.waiting (s : NodeState PeerId) : Slot × RequestId → Option Channel :=
  fun key => (s.pending key.1).lookup key.2

/-- Nobody waits at the start. -/
theorem NodeState.waiting_initial (config : NodeConfig PeerId) :
    (NodeState.initial config).waiting = fun _ => none := by
  funext key
  exact AList.lookup_empty key.2

/-- A channel begins to wait. -/
theorem NodeState.waiting_insert (s : NodeState PeerId) (slot : Slot) (id : RequestId)
    (channel : Channel) : (s.insert slot id channel).waiting
      = Function.update s.waiting (slot, id) (some channel) := by
  funext ⟨slot', id'⟩
  by_cases hslot : slot' = slot
  · subst hslot
    by_cases hid : id' = id
    · subst hid
      simp [waiting, insert]
    · simp [waiting, insert, hid]
  · simp [waiting, insert, hslot]

/-- A channel stops waiting. -/
theorem NodeState.waiting_remove (s : NodeState PeerId) (slot : Slot) (id : RequestId) :
    (s.remove slot id).waiting = Function.update s.waiting (slot, id) none := by
  funext ⟨slot', id'⟩
  by_cases hslot : slot' = slot
  · subst hslot
    by_cases hid : id' = id
    · subst hid
      simp [waiting, remove]
    · simp [waiting, remove, hid]
  · simp [waiting, remove, hslot]

/-- Under any answers to its calls, the program plays the acts at the table. -/
def NodeState.Plays (s : NodeState PeerId) (acts : List (NodeAct PeerId))
    (p : NodeAction PeerId (NodeState PeerId)) : Prop :=
  ∀ h, Meets (.under fun _ _ => True) h p fun h' s' =>
    s'.waiting = after s.waiting acts ∧ sent h' = sent h ++ replies s.waiting acts

/-- Under any answers to its calls, the program sends no replies. -/
def Silent {α : Type} (p : NodeAction PeerId α) : Prop :=
  ∀ h, Meets (.under fun _ _ => True) h p fun h' _ => sent h' = sent h

variable {α β : Type} {s : NodeState PeerId} {acts acts' : List (NodeAct PeerId)}

/-- A call that sends nothing. -/
theorem sent_perform {c : NodeCall PeerId} (hc : c.sent? = none) (h : NodeCalls PeerId)
    (r : c.Ans) : sent (h ++ [⟨c, r⟩]) = sent h := by
  have hnone : sent [(⟨c, r⟩ : Event (@NodeCall.Ans PeerId))] = [] := List.filterMap_cons_none hc
  rw [sent_append, hnone, List.append_nil]

/-- The same as a program. -/
theorem silent_call {c : NodeCall PeerId} (hc : c.sent? = none) : Silent (callNode c) :=
  fun h => ⟨trivial, fun r _ => sent_perform hc h r⟩

/-- Two silent programs, one after the other. -/
theorem Silent.bind {p : NodeAction PeerId α} {f : α → NodeAction PeerId β} (hp : Silent p)
    (hf : ∀ a, Silent (f a)) : Silent (p >>= f) := by
  refine fun h => (hp h).bind fun h₁ a _ hsent => ?_
  exact (hf a h₁).mono fun h₂ b _ hsent' => hsent'.trans hsent

/-- No call at all. -/
theorem silent_pure (a : α) : Silent (pure a : NodeAction PeerId α) := fun _ => rfl

/-- Some calls that send nothing. -/
theorem silent_callAll {cs : List (NodeCall PeerId)} (hcs : ∀ c ∈ cs, c.sent? = none) :
    Silent (callAll cs) := by
  induction cs with
  | nil => exact silent_pure ()
  | cons c rest ih =>
      refine (silent_call (hcs c List.mem_cons_self)).bind fun _ => ?_
      exact ih fun c' hc' => hcs c' (List.mem_cons_of_mem c hc')

/-- The same for calls that are made from a list. -/
theorem silent_callAll_map {f : α → NodeCall PeerId} {l : List α}
    (hf : ∀ a, (f a).sent? = none) : Silent (callAll (l.map f)) := by
  refine silent_callAll fun c hc => ?_
  obtain ⟨a, -, rfl⟩ := List.mem_map.mp hc
  exact hf a

/-- Putting a record sends nothing. -/
theorem silent_putRecord (key value : Bytes) :
    Silent (callAll [.putRecord key value] : NodeAction PeerId Unit) :=
  silent_callAll (by simp [NodeCall.sent?])

/-- A silent program that may be left out. -/
theorem silent_forM {o : Option α} {f : α → NodeAction PeerId Unit} (hf : ∀ a, Silent (f a)) :
    Silent (o.forM f) := by
  cases o with
  | none => exact silent_pure ()
  | some a => exact hf a

/-- The loop starts with its initial variables. -/
theorem startup_eq {formats : NodeFormats PeerId} {config : NodeConfig PeerId}
    {calls : NodeCalls PeerId} {s : NodeState PeerId}
    (hrun : (startup formats config).Runs calls (some (.ok s))) : s = .initial config := by
  have hmeets : Meets (.under fun _ _ => True) [] (startup formats config) fun _ r =>
      ∀ s, r = .ok s → s = NodeState.initial config := by
    refine ⟨trivial, fun listening _ => ?_⟩
    rcases listening with e | _
    · rintro s ⟨⟩
    · refine (silent_callAll_map (fun _ => rfl) _).bind fun _ _ _ _ => ?_
      refine (silent_callAll_map (fun _ => rfl) _).bind fun _ _ _ _ => ?_
      refine (silent_callAll_map (fun _ => rfl) _).bind fun _ _ _ _ => ?_
      rintro s ⟨⟩
      rfl
  obtain ⟨_, heq, hs⟩ := hmeets.ends hrun fun _ _ => trivial
  obtain rfl := Option.some.inj heq
  exact hs s rfl

namespace NodeState

/-- Nothing changes for those who wait. -/
theorem plays_pure {s' : NodeState PeerId} (hwaiting : s'.waiting = s.waiting) :
    s.Plays [] (pure s') :=
  fun h => ⟨hwaiting, (List.append_nil (sent h)).symm⟩

/-- Two programs, one after the other. -/
theorem Plays.bind {p : NodeAction PeerId (NodeState PeerId)}
    {f : NodeState PeerId → NodeAction PeerId (NodeState PeerId)} (hp : s.Plays acts p)
    (hf : ∀ s' : NodeState PeerId, s'.Plays acts' (f s')) : s.Plays (acts ++ acts') (p >>= f) := by
  refine fun h => (hp h).bind fun h₁ s₁ _ ⟨hwaiting, hsent⟩ => ?_
  refine (hf s₁ h₁).mono fun h₂ s₂ _ ⟨hwaiting', hsent'⟩ => ⟨?_, ?_⟩
  · rw [hwaiting', hwaiting, after_append]
  · rw [hsent', hsent, hwaiting, replies_append, List.append_assoc]

/-- Sequencing after a program that does nothing at the table. -/
theorem Plays.nil_bind {p : NodeAction PeerId (NodeState PeerId)}
    {f : NodeState PeerId → NodeAction PeerId (NodeState PeerId)} (hp : s.Plays [] p)
    (hf : ∀ s' : NodeState PeerId, s'.Plays acts (f s')) : s.Plays acts (p >>= f) :=
  hp.bind hf

/-- A silent program before another does nothing at the table. -/
theorem Plays.of_silent {p : NodeAction PeerId α} {f : α → NodeAction PeerId (NodeState PeerId)}
    (hp : Silent p) (hf : ∀ a, s.Plays acts (f a)) : s.Plays acts (p >>= f) := by
  refine fun h => (hp h).bind fun h₁ a _ hsent => ?_
  exact (hf a h₁).mono fun h₂ s₂ _ ⟨hwaiting, hsent'⟩ => ⟨hwaiting, hsent ▸ hsent'⟩

/-- Calls that send no replies, and then a state with the same table. -/
theorem plays_callAll {cs : List (NodeCall PeerId)} {s' : NodeState PeerId}
    (hcs : ∀ c ∈ cs, c.sent? = none) (hwaiting : s'.waiting = s.waiting) :
    s.Plays [] (callAll cs >>= fun _ => pure s') :=
  .of_silent (silent_callAll hcs) fun _ => plays_pure hwaiting

/-- **Settling is answering.** -/
theorem plays_settle (slot : Slot) (id : RequestId) (msg : Message PeerId) :
    s.Plays [.answer (slot, id) msg] (s.settle slot id msg) := by
  intro h
  have hafter : after s.waiting [.answer (slot, id) msg]
      = Function.update s.waiting (slot, id) none := rfl
  have hreplies : replies s.waiting [Act.answer (slot, id) msg]
      = ((s.pending slot).lookup id).toList.map fun channel => (channel, msg) :=
    List.append_nil _
  rw [hafter, hreplies, settle]
  rcases hpending : (s.pending slot).lookup id with - | channel
  · refine ⟨?_, (List.append_nil _).symm⟩
    have hnone : s.waiting (slot, id) = none := hpending
    rw [← hnone, Function.update_eq_self]
  · refine ⟨trivial, fun _ _ => ⟨s.waiting_remove slot id, ?_⟩⟩
    exact sent_append _ _

/-! ### Events -/

/-- The events of a fetch answer under its map. -/
theorem plays_handleFetchEvent {Req Resp : Type} (slot : Slot)
    {serve : Req → ResponseChannel → NodeCall PeerId} (data : Resp → Option Bytes)
    (hserve : ∀ request channel, (serve request channel).sent? = none)
    (event : RequestResponseEvent PeerId Req Resp) :
    s.Plays (event.outcome?.toList.map fun outcome =>
      .answer (slot, outcome.1) (fetchMessage data outcome.2))
      (s.handleFetchEvent slot serve data event) := by
  cases event with
  | request request channel =>
      refine plays_callAll ?_ rfl
      simpa using hserve request channel
  | response id response => exact plays_settle slot id _
  | outboundFailure id peer error => exact plays_settle slot id _
  | inboundFailure | other => exact plays_pure rfl

/-- The events of an address query answer under its map. -/
theorem plays_handleAddrEvent [DecidableEq PeerId]
    (event : RequestResponseEvent PeerId (AddrRequest PeerId) AddrResponse) :
    s.Plays (event.outcome?.toList.map fun outcome =>
      .answer (.addrQueries, outcome.1) (addrMessage outcome.2)) (s.handleAddrEvent event) := by
  cases event with
  | request request channel =>
      exact plays_callAll (by simp [NodeCall.sent?]) rfl
  | response id response => exact plays_settle .addrQueries id _
  | outboundFailure id peer error => exact plays_settle .addrQueries id _
  | inboundFailure | other => exact plays_pure rfl

/-- A result of a query answers under the maps of its kind. -/
theorem plays_handleQueryResult (id : RequestId) (result : QueryResult PeerId) :
    s.Plays (result.messages.map fun message => .answer (message.1, id) message.2)
      (s.handleQueryResult id result) := by
  cases result with
  | getProviders r =>
      rcases r with _ | _ | _ <;> exact plays_settle .finds id _
  | getRecord r =>
      rcases r with _ | _ <;>
        exact (plays_settle .suiAddrQueries id _).bind fun _ => plays_settle .vaultQueries id _
  | startProviding r =>
      rcases r with _ | key
      · exact plays_pure rfl
      · rw [handleQueryResult]
        split
        · dsimp only
          split
          · exact plays_pure rfl
          · exact plays_callAll (by simp [NodeCall.sent?]) rfl
        · exact plays_pure rfl
  | bootstrap | putRecord | other => exact plays_pure rfl

variable {formats : NodeFormats PeerId} {config : NodeConfig PeerId}

/-- Publishing the node's records does nothing at the table. -/
theorem plays_publishSuiAddrOnce : s.Plays [] (s.publishSuiAddrOnce formats config) := by
  rw [publishSuiAddrOnce]
  split
  · exact plays_pure rfl
  · split
    · exact Plays.of_silent (silent_putRecord _ _) fun _ => plays_pure rfl
    · exact plays_pure rfl

/-- Publishing the vault concerns nobody who waits. -/
theorem plays_publishVaultOnce : s.Plays [] (s.publishVaultOnce formats config) := by
  rw [publishVaultOnce]
  split
  · exact plays_pure rfl
  · split
    · exact Plays.of_silent (silent_putRecord _ _) fun _ => plays_pure rfl
    · exact plays_pure rfl

/-- A connection to a bootstrap peer does nothing at the table. -/
theorem plays_bootstrapConnected [DecidableEq PeerId] (peer : PeerId) :
    s.Plays [] (s.bootstrapConnected formats peer) := by
  rw [bootstrapConnected]
  split
  · split
    · refine Plays.of_silent (silent_call rfl) fun listed => ?_
      split
      · refine plays_callAll (fun c hc => ?_) rfl
        obtain ⟨id, _, hid⟩ := List.mem_filterMap.mp hc
        obtain ⟨blobId, _, rfl⟩ := Option.map_eq_some_iff.mp hid
        rfl
      · exact plays_pure rfl
    · refine Plays.of_silent (silent_call rfl) fun started => ?_
      split <;> exact plays_pure rfl
  · exact plays_pure rfl

/-- A connection does nothing at the table. -/
theorem plays_handleConnectionEstablished [DecidableEq PeerId] (peer : PeerId)
    (endpoint : ConnectedPoint) :
    s.Plays [] (s.handleConnectionEstablished formats config peer endpoint) := by
  refine Plays.of_silent (silent_callAll (by simp [NodeCall.sent?])) fun _ => ?_
  refine plays_publishSuiAddrOnce.nil_bind fun s₁ => ?_
  refine plays_publishVaultOnce.nil_bind fun s₂ => ?_
  refine (plays_bootstrapConnected peer).nil_bind fun s₃ => ?_
  exact plays_callAll (by simp [NodeCall.sent?]) rfl

variable (formats config)

/-- A tick does nothing at the table. -/
theorem plays_republish : s.Plays [] (s.republish formats config) := by
  refine Plays.of_silent (silent_forM fun _ => silent_putRecord _ _) fun _ => ?_
  exact Plays.of_silent (silent_forM fun _ => silent_putRecord _ _) fun _ => plays_pure rfl

variable [DecidableEq PeerId]

/-- **An event plays its answers.** -/
theorem plays_handleSwarmEvent (event : SwarmEvent PeerId) :
    s.Plays event.answers (s.handleSwarmEvent formats config event) := by
  cases event with
  | behaviour event =>
      cases event with
      | kad event =>
          cases event with
          | routingUpdated peer addresses =>
              rw [handleSwarmEvent, handleBehaviourEvent, handleKadEvent]
              split <;> exact plays_pure rfl
          | outboundQueryProgressed id result =>
              have hanswers : (SwarmEvent.behaviour
                  (.kad (.outboundQueryProgressed id result))).answers
                  = result.messages.map fun message => .answer (message.1, id) message.2 :=
                List.append_nil _
              rw [hanswers]
              exact plays_handleQueryResult id result
          | other => exact plays_pure rfl
      | data event =>
          have hanswers : s.Plays _ (s.handleDataEvent event) :=
            plays_handleFetchEvent .fetches BlobResponse.data (fun _ _ => rfl) event
          cases event <;> exact hanswers
      | range event =>
          have hanswers : s.Plays _ (s.handleRangeEvent event) :=
            plays_handleFetchEvent .rangeFetches RangeResponse.data (fun _ _ => rfl) event
          cases event <;> exact hanswers
      | sliver event =>
          have hanswers : s.Plays _ (s.handleSliverEvent event) :=
            plays_handleFetchEvent .sliverFetches SliverResponse.data (fun _ _ => rfl) event
          cases event <;> exact hanswers
      | addr event =>
          have hanswers := plays_handleAddrEvent (s := s) event
          cases event <;> exact hanswers
      | identifyReceived peer listenAddrs =>
          rw [handleSwarmEvent, handleBehaviourEvent]
          split
          · exact plays_pure rfl
          · exact plays_callAll (by simp [NodeCall.sent?]) rfl
      | identifyOther | ping => exact plays_pure rfl
  | connectionEstablished peer endpoint => exact plays_handleConnectionEstablished peer endpoint
  | other => exact plays_pure rfl

end NodeState

/-! ### Commands -/

/-- What the calls of a command say: it opens a request under the one id it is handed out,
or it is an address query without connected peers, or it is replied directly, or it has no
reply channel. -/
inductive P2pCommand.Handled (reply : Channel) (calls : NodeCalls PeerId) : P2pCommand PeerId → Prop
  | requested {cmd : P2pCommand PeerId} (slot : Slot) (id : RequestId) :
      cmd.slot? = some slot → issued calls = [(slot.idSpace, id)] → sent calls = [] →
        Handled reply calls cmd
  | noPeers (target : PeerId) :
      calls = [⟨.connectedPeers, ([] : List PeerId)⟩, ⟨.reply reply (.addresses []), ()⟩] →
        Handled reply calls (.queryPeerAddress target)
  | atOnce {cmd : P2pCommand PeerId} (msg : Message PeerId) :
      cmd.answeredAtOnce → sent calls = [(reply, msg)] → Handled reply calls cmd
  | silent {cmd : P2pCommand PeerId} :
      cmd.slot? = none → sent calls = [] → Handled reply calls cmd

namespace NodeState

/-- Dialing sends no replies. -/
theorem silent_dialAddresses (formats : NodeFormats PeerId) (peer : PeerId)
    (addrs : List Multiaddr) (connected : Bool) :
    Silent (dialAddresses formats peer addrs connected) := by
  induction addrs generalizing connected with
  | nil => exact silent_pure connected
  | cons addr rest ih => exact (silent_call rfl).bind fun dialed => ih _

variable (formats : NodeFormats PeerId) [DecidableEq PeerId]

/-- **A command is handled**, and opens the request that its calls say. -/
theorem meets_handleCommand (cmd : P2pCommand PeerId) (reply : Channel) :
    Meets (.under fun _ _ => True) [] (s.handleCommand formats cmd reply) fun calls s' =>
      cmd.Handled reply calls ∧ s'.waiting = after s.waiting (cmd.acts reply calls) := by
  cases cmd with
  | findProviders blobId =>
      refine ⟨trivial, fun id _ => ⟨.requested .finds id rfl rfl rfl, ?_⟩⟩
      exact s.waiting_insert .finds id reply
  | fetchBlob peer blobId paymentTxDigest =>
      refine ⟨trivial, fun id _ => ⟨.requested .fetches id rfl rfl rfl, ?_⟩⟩
      exact s.waiting_insert .fetches id reply
  | fetchRange peer blobId offset length paymentTxDigest =>
      refine ⟨trivial, fun id _ => ⟨.requested .rangeFetches id rfl rfl rfl, ?_⟩⟩
      exact s.waiting_insert .rangeFetches id reply
  | fetchSliver peer blobId sliverPairIndex axis =>
      refine ⟨trivial, fun id _ => ⟨.requested .sliverFetches id rfl rfl rfl, ?_⟩⟩
      exact s.waiting_insert .sliverFetches id reply
  | getPeerSuiAddress peer =>
      refine ⟨trivial, fun id _ => ⟨.requested .suiAddrQueries id rfl rfl rfl, ?_⟩⟩
      exact s.waiting_insert .suiAddrQueries id reply
  | getPeerVault peer =>
      refine ⟨trivial, fun id _ => ⟨.requested .vaultQueries id rfl rfl rfl, ?_⟩⟩
      exact s.waiting_insert .vaultQueries id reply
  | queryPeerAddress target =>
      refine ⟨trivial, fun connected _ => ?_⟩
      rcases connected with _ | ⟨peer, rest⟩
      · exact ⟨trivial, fun _ _ => ⟨.noPeers target rfl, rfl⟩⟩
      · refine ⟨trivial, fun id _ => ⟨.requested .addrQueries id rfl rfl rfl, ?_⟩⟩
        exact s.waiting_insert .addrQueries id reply
  | dialKadPeer peer addrs =>
      refine (silent_dialAddresses formats peer _ false []).bind fun h success _ hsent => ?_
      refine ⟨trivial, fun _ _ => ⟨.atOnce (.dialed success) rfl ?_, (after_direct _ _).symm⟩⟩
      rw [sent_append, hsent]
      rfl
  | getConnectedPeers =>
      exact ⟨trivial, fun connected _ => ⟨trivial, fun _ _ => ⟨.atOnce _ rfl rfl, rfl⟩⟩⟩
  | announceBlob blobId =>
      refine ⟨trivial, fun _ _ => ⟨trivial, fun connected _ => ?_⟩⟩
      rcases connected with _ | ⟨peer, rest⟩ <;> exact ⟨.silent rfl rfl, rfl⟩
  | addBootstrapPeer | bootstrap | dial | disconnect =>
      exact ⟨trivial, fun _ _ => ⟨.silent rfl rfl, rfl⟩⟩

end NodeState

namespace P2pCommand

variable {cmd : P2pCommand PeerId} {reply : Channel} {calls : NodeCalls PeerId}

/-- A command with a map that is handed out an id opens a request. -/
theorem acts_requested {slot : Slot} {space : IdSpace} {id : RequestId}
    (hslot : cmd.slot? = some slot) (hissued : issued calls = [(space, id)]) :
    cmd.acts reply calls = [.request (slot, id) reply] := by
  rw [acts, hslot, hissued]

/-- A command without a map is replied directly, if at all. -/
theorem acts_direct (hslot : cmd.slot? = none) :
    cmd.acts reply calls = (sent calls).map fun message => .direct message.1 message.2 := by
  rw [acts, hslot]

/-- A command that is answered at once waits nowhere. -/
theorem slot?_eq_none (honce : cmd.answeredAtOnce) : cmd.slot? = none := by
  cases cmd with
  | dialKadPeer | getConnectedPeers => rfl
  | _ => cases honce

/-- A command that waits has a channel. -/
theorem channel?_of_slot {slot : Slot} (hslot : cmd.slot? = some slot) :
    (NodeInput.command cmd reply).channel? = some reply := by
  rw [NodeInput.channel?, hslot]
  rfl

/-- So has one that is answered at once. -/
theorem channel?_of_once (honce : cmd.answeredAtOnce) :
    (NodeInput.command cmd reply).channel? = some reply := by
  rw [NodeInput.channel?, honce, Bool.or_true]
  rfl

/-- What a handled command sends is what its acts tell. -/
theorem Handled.sent_eq (hcmd : cmd.Handled reply calls)
    (pending : Slot × RequestId → Option Channel) :
    sent calls = replies pending (cmd.acts reply calls) := by
  cases hcmd with
  | requested slot id hslot hissued hsent =>
      rw [acts_requested hslot hissued, hsent]
      rfl
  | noPeers target hcalls =>
      rw [hcalls]
      rfl
  | atOnce msg honce hsent =>
      rw [acts_direct (slot?_eq_none honce)]
      exact (replies_direct pending _).symm
  | silent hslot hsent =>
      rw [acts_direct hslot]
      exact (replies_direct pending _).symm

/-- A handled command opens at most the request of the id it was handed out, and nobody but
its own channel comes into play. -/
theorem Handled.acts_sublist (hcmd : cmd.Handled reply calls) :
    ((requests (cmd.acts reply calls)).map fun request =>
        (request.1.1.idSpace, request.1.2)).Sublist (issued calls) ∧
      (channels (cmd.acts reply calls)).Sublist (NodeInput.command cmd reply).channel?.toList := by
  cases hcmd with
  | requested slot id hslot hissued hsent =>
      rw [acts_requested hslot hissued, hissued, channel?_of_slot hslot]
      exact ⟨List.Sublist.refl _, List.Sublist.refl _⟩
  | noPeers target hcalls =>
      rw [hcalls]
      exact ⟨List.nil_sublist _, List.Sublist.refl _⟩
  | atOnce msg honce hsent =>
      rw [acts_direct (slot?_eq_none honce), hsent, channel?_of_once honce]
      exact ⟨List.nil_sublist _, List.Sublist.refl _⟩
  | silent hslot hsent =>
      rw [acts_direct hslot, hsent]
      exact ⟨List.nil_sublist _, List.nil_sublist _⟩

end P2pCommand

/-! ### Turns -/

/-- A turn does at the maps and the reply channels what its acts do at the table. -/
structure Turn.Played (turn : Turn PeerId) (pending : Slot × RequestId → Option Channel) :
    Prop where
  sent_eq : sent turn.calls = replies pending turn.acts
  handled : ∀ cmd reply, turn.input = .command cmd reply → cmd.Handled reply turn.calls

/-- **One turn.** -/
theorem NodeState.turnPlayed [DecidableEq PeerId] {formats : NodeFormats PeerId}
    {config : NodeConfig PeerId} {s s' : NodeState PeerId} {input : NodeInput PeerId}
    {calls : NodeCalls PeerId} (hrun : (s.handle formats config input).Runs calls (some s')) :
    (⟨input, calls⟩ : Turn PeerId).Played s.waiting ∧
      s'.waiting = after s.waiting (⟨input, calls⟩ : Turn PeerId).acts := by
  cases input with
  | command cmd reply =>
      obtain ⟨_, heq, hcmd, hwaiting⟩ :=
        (s.meets_handleCommand formats cmd reply).ends hrun fun _ _ => trivial
      obtain rfl := Option.some.inj heq
      refine ⟨⟨hcmd.sent_eq s.waiting, ?_⟩, hwaiting⟩
      rintro _ _ ⟨⟩
      exact hcmd
  | event event =>
      obtain ⟨_, heq, hwaiting, hsent⟩ :=
        (plays_handleSwarmEvent formats config event []).ends hrun fun _ _ => trivial
      obtain rfl := Option.some.inj heq
      exact ⟨⟨hsent, fun _ _ hinput => (by cases hinput)⟩, hwaiting⟩
  | tick =>
      obtain ⟨_, heq, hwaiting, hsent⟩ :=
        (plays_republish formats config []).ends hrun fun _ _ => trivial
      obtain rfl := Option.some.inj heq
      exact ⟨⟨hsent, fun _ _ hinput => (by cases hinput)⟩, hwaiting⟩

end ZingCdn
