import ZingCdn.Replies

/-!
# Looking Up the Providers of a Blob

Kademlia reports the providers of a blob in batches: any number of `FoundProviders` results of
one query, the first of them from the local store when the node provides the blob itself, and
then `FinishedWithNoAdditionalRecord` or a timeout. The loop replies to the command with the
first result of its query and forgets the query, so what later batches name is dropped. On a
node that provides the blob itself, the reply may name nobody but the node.

## Main results

* `told_waiting`: what any waiting command is told is the first message of its request.
* `told_findProviders`: a lookup is told the first batch of its query.
* `provider_lookup_complete_iff`: when the reply names every provider that was reported.
* `first_batch_only`: a provider in the second batch.
-/

open Program Program.Prog Correlation

namespace ZingCdn

variable {PeerId : Type}

/-! ### What a waiting command is told -/

section Waiting

variable {turns pre post : List (Turn PeerId)} {turn : Turn PeerId}

/-- The messages that the events of some turns have for a request. -/
def messagesFor (slot : Slot) (id : RequestId) (turns : List (Turn PeerId)) :
    List (Message PeerId) :=
  answersTo (slot, id) (actsIn turns)

/-- **A waiting command is told the first message of its request**, and nothing else. -/
theorem told_waiting (hturns : Played turns) (hfresh : Fresh (actsIn turns))
    (hsplit : turns = pre ++ turn :: post) {cmd : P2pCommand PeerId} {reply : Channel}
    {slot : Slot} {id : RequestId} (hinput : turn.input = .command cmd reply)
    (hslot : cmd.slot? = some slot) (hissued : issued turn.calls = [(slot.idSpace, id)]) :
    told reply (sentIn turns) = (messagesFor slot id post).head?.toList := by
  have hopened : turn.acts = [.request (slot, id) reply] := by
    rw [Turn.acts, hinput]
    exact P2pCommand.acts_requested hslot hissued
  have hacts : actsIn turns = actsIn pre ++ .request (slot, id) reply :: actsIn post := by
    have hcons : actsIn (turn :: post) = turn.acts ++ actsIn post := List.flatMap_cons
    rw [hsplit, actsIn_append, hcons, hopened]
    rfl
  rw [hturns.sentIn_eq, hacts]
  exact told_requester (hacts ▸ hfresh)

end Waiting

/-! ### The results of a query -/

/-- The result of a provider query that an input reports. -/
def NodeInput.lookupResult? (id : RequestId) :
    NodeInput PeerId → Option (Except String (GetProvidersOk PeerId))
  | .event (.behaviour (.kad (.outboundQueryProgressed id' (.getProviders r)))) =>
      if id' = id then some r else none
  | _ => none

/-- The results of a provider query that some turns have processed, in order. -/
def lookupResults (id : RequestId) (turns : List (Turn PeerId)) :
    List (Except String (GetProvidersOk PeerId)) :=
  turns.filterMap fun turn => turn.input.lookupResult? id

/-- The providers that a result names. -/
def batch : Except String (GetProvidersOk PeerId) → List PeerId
  | .ok (.foundProviders providers) => providers
  | .ok .finishedWithNoAdditionalRecord => []
  | .error _ => []

/-- The providers that a query has reported. -/
def reportedProviders (id : RequestId) (turns : List (Turn PeerId)) : List PeerId :=
  (lookupResults id turns).flatMap batch

/-- A command answers nobody's request. -/
theorem answersTo_commandActs (key : Slot × RequestId) (cmd : P2pCommand PeerId)
    (reply : Channel) (calls : NodeCalls PeerId) :
    answersTo key (cmd.acts reply calls) = [] := by
  refine List.filterMap_eq_nil_iff.mpr fun act hact => ?_
  rw [P2pCommand.acts] at hact
  split at hact
  · obtain rfl := List.mem_singleton.mp hact
    rfl
  · obtain ⟨message, -, rfl⟩ := List.mem_map.mp hact
    rfl

/-- An event answers a provider query with its result, if it has one. -/
theorem answersTo_eventAnswers (id : RequestId) (event : SwarmEvent PeerId) :
    answersTo (.finds, id) event.answers =
      ((NodeInput.event event).lookupResult? id).toList.map fun r => .peers (batch r) := by
  rcases event with (event | event | event | event | event | _ | _ | _) | _ | _
  · rcases event with _ | ⟨id', result⟩ | _
    · rfl
    · by_cases hid : id' = id
      · subst hid
        rcases result with (_ | _ | _) | _ | _ | (_ | _) | _ | _ <;>
          simp [answersTo, SwarmEvent.answers, SwarmEvent.id?, SwarmEvent.messages,
            QueryResult.messages, NodeInput.lookupResult?, batch]
      · rcases result with (_ | _ | _) | _ | _ | (_ | _) | _ | _ <;>
          simp [answersTo, SwarmEvent.answers, SwarmEvent.id?, SwarmEvent.messages,
            QueryResult.messages, NodeInput.lookupResult?, hid]
    · rfl
  all_goals
    first
    | rfl
    | cases event <;> rfl

/-- The messages for a provider query are its batches. -/
theorem messagesFor_finds (id : RequestId) (turns : List (Turn PeerId)) :
    messagesFor .finds id turns = (lookupResults id turns).map fun r => .peers (batch r) := by
  have hturn : ∀ turn : Turn PeerId, answersTo (.finds, id) turn.acts =
      (turn.input.lookupResult? id).toList.map fun r => .peers (batch r) := by
    rintro ⟨input, calls⟩
    cases input with
    | command cmd reply => exact answersTo_commandActs _ cmd reply calls
    | event event => exact answersTo_eventAnswers id event
    | tick => rfl
  induction turns with
  | nil => rfl
  | cons turn turns ih =>
      have hmessages : messagesFor .finds id (turn :: turns)
          = answersTo (.finds, id) turn.acts ++ messagesFor .finds id turns :=
        (congrArg (answersTo _) List.flatMap_cons).trans List.filterMap_append
      have hresults : lookupResults id (turn :: turns)
          = (turn.input.lookupResult? id).toList ++ lookupResults id turns := by
        simp only [lookupResults, List.filterMap_eq_flatMap_toList, List.flatMap_cons]
      rw [hmessages, hresults, hturn, ih, List.map_append]

/-! ### The reply -/

section Lookup

variable {formats : NodeFormats PeerId} {config : NodeConfig PeerId} {run : NodeRun PeerId}
  {pre post : List (Turn PeerId)} {turn : Turn PeerId} {blobId : Bytes32} {reply : Channel}

/-- **A lookup is told the first batch** of its query, in every run of the loop in which the
swarm hands out no id of a behaviour twice and each command brings a channel of its own. -/
theorem told_findProviders [DecidableEq PeerId] (hrun : ReachableNode formats config run)
    (hids : (issuedIn run.turns).Nodup) (hchannels : (channelsIn run.turns).Nodup)
    (hsplit : run.turns = pre ++ turn :: post)
    (hinput : turn.input = .command (.findProviders blobId) reply) :
    ∃ id, issued turn.calls = [(.kad, id)] ∧
      told reply (sentIn run.turns) =
        (lookupResults id post).head?.toList.map fun r => .peers (batch r) := by
  have hturns := (played_of_reachable hrun).1
  have hmem : turn ∈ run.turns := hsplit ▸ List.mem_append_right _ List.mem_cons_self
  rcases (hturns.handled hmem hinput).waits rfl with hatOnce | ⟨id, hissued, -⟩
  · obtain ⟨target, htarget⟩ := hatOnce.1
    cases htarget
  · refine ⟨id, hissued, ?_⟩
    rw [told_waiting hturns (hturns.fresh hids hchannels) hsplit hinput rfl hissued,
      messagesFor_finds, List.head?_map, Option.toList_map]

/-- The reply to a lookup, once there is a result, names every provider that was reported. -/
def LookupComplete (run : NodeRun PeerId) (reply : Channel) (id : RequestId)
    (post : List (Turn PeerId)) : Prop :=
  lookupResults id post ≠ [] →
    ∃ peers, told reply (sentIn run.turns) = [.peers peers] ∧
      ∀ provider ∈ reportedProviders id post, provider ∈ peers

/-- The first result of a query names every provider that the later ones name. -/
def FirstNamesAll (id : RequestId) (turns : List (Turn PeerId)) : Prop :=
  ∀ first later, lookupResults id turns = first :: later →
    ∀ result ∈ later, ∀ provider ∈ batch result, provider ∈ batch first

/-- **When a lookup is complete**: the reply names every provider that any result of the query
reports if and only if the first result names them all. -/
theorem provider_lookup_complete_iff [DecidableEq PeerId]
    (hrun : ReachableNode formats config run) (hids : (issuedIn run.turns).Nodup)
    (hchannels : (channelsIn run.turns).Nodup) (hsplit : run.turns = pre ++ turn :: post)
    (hinput : turn.input = .command (.findProviders blobId) reply) :
    ∃ id, issued turn.calls = [(.kad, id)] ∧
      (LookupComplete run reply id post ↔ FirstNamesAll id post) := by
  obtain ⟨id, hissued, htold⟩ := told_findProviders hrun hids hchannels hsplit hinput
  refine ⟨id, hissued, ?_⟩
  rw [LookupComplete, FirstNamesAll, htold, reportedProviders]
  cases lookupResults id post with
  | nil => simp
  | cons first later =>
      constructor
      · rintro hcomplete _ _ ⟨⟩ result hresult provider hprovider
        obtain ⟨peers, hpeers, hall⟩ := hcomplete (List.cons_ne_nil _ _)
        obtain rfl : batch first = peers := by simpa using hpeers
        exact hall provider (List.mem_flatMap.mpr
          ⟨result, List.mem_cons_of_mem _ hresult, hprovider⟩)
      · refine fun hfirst _ => ⟨batch first, rfl, fun provider hreported => ?_⟩
        obtain ⟨result, hresult, hprovider⟩ := List.mem_flatMap.mp hreported
        rcases List.mem_cons.mp hresult with rfl | hlater
        · exact hprovider
        · exact hfirst first later rfl result hlater provider hprovider

end Lookup

/-! ### A lookup in two batches -/

section Batches

/-- A result of the query 7. -/
def lookupTurn (r : Except String (GetProvidersOk ℕ)) (calls : NodeCalls ℕ) : Turn ℕ :=
  ⟨.event (.behaviour (.kad (.outboundQueryProgressed 7 (.getProviders r)))), calls⟩

/-- The local batch names the node itself, and the loop replies. -/
def localTurn : Turn ℕ := lookupTurn (.ok (.foundProviders [0])) [⟨.reply 0 (.peers [0]), ()⟩]

/-- The batch of a remote peer names a provider. -/
def remoteTurn : Turn ℕ := lookupTurn (.ok (.foundProviders [4])) []

/-- The query has ended. -/
def endTurn : Turn ℕ := lookupTurn (.ok .finishedWithNoAdditionalRecord) []

/-- **Only the first batch is replied**: the node 0 provides the blob itself and looks up other
providers; the query reports the provider 4, and the reply names nobody but the node 0. -/
theorem first_batch_only :
    ∃ run, ReachableNode crossedFormats crossedConfig run ∧
      run.turns = [] ++ searchTurn :: [localTurn, remoteTurn, endTurn] ∧
      (issuedIn run.turns).Nodup ∧ (channelsIn run.turns).Nodup ∧
      issued searchTurn.calls = [(.kad, 7)] ∧
      (told 0 (sentIn run.turns) = [.peers [crossedConfig.localPeerId]] ∧
        4 ∈ reportedProviders 7 [localTurn, remoteTurn, endTurn]) ∧
      ¬ LookupComplete run 0 7 [localTurn, remoteTurn, endTurn] := by
  have hlocal : ReachableNode crossedFormats crossedConfig ⟨_, [searchTurn, localTurn]⟩ :=
    reachable_searchTurn.snoc (.turn (runs_call_iff.mpr ⟨(), [], rfl, .ret _⟩))
  have hremote : ReachableNode crossedFormats crossedConfig
      ⟨_, [searchTurn, localTurn, remoteTurn]⟩ := hlocal.snoc (.turn (.ret _))
  have hend : ReachableNode crossedFormats crossedConfig
      ⟨_, [searchTurn, localTurn, remoteTurn, endTurn]⟩ := hremote.snoc (.turn (.ret _))
  have htold : told 0 (sentIn [searchTurn, localTurn, remoteTurn, endTurn])
      = [.peers [crossedConfig.localPeerId]] := rfl
  have hreported : 4 ∈ reportedProviders 7 [localTurn, remoteTurn, endTurn] :=
    List.mem_cons_of_mem 0 List.mem_cons_self
  refine ⟨_, hend, rfl, by decide, by decide, rfl, ⟨htold, hreported⟩, fun hcomplete => ?_⟩
  obtain ⟨peers, hpeers, hall⟩ := hcomplete (List.cons_ne_nil _ _)
  obtain rfl : [crossedConfig.localPeerId] = peers := by simpa using htold.symm.trans hpeers
  exact absurd (hall 4 hreported) (by decide)

/-- A lookup in one batch is complete. -/
theorem provider_lookup_complete_crossed :
    ∃ run, run.turns = [] ++ searchTurn :: [resultTurn, endTurn] ∧
      LookupComplete run 0 7 [resultTurn, endTurn] := by
  have hresult : ReachableNode crossedFormats crossedConfig ⟨_, [searchTurn, resultTurn]⟩ :=
    reachable_searchTurn.snoc (.turn (runs_call_iff.mpr ⟨(), [], rfl, .ret _⟩))
  have hend : ReachableNode crossedFormats crossedConfig ⟨_, [searchTurn, resultTurn, endTurn]⟩ :=
    hresult.snoc (.turn (.ret _))
  obtain ⟨run, hrun, hturns⟩ : ∃ run, ReachableNode crossedFormats crossedConfig run ∧
      run.turns = [] ++ searchTurn :: [resultTurn, endTurn] := ⟨_, hend, rfl⟩
  obtain ⟨id, hissued, hiff⟩ := provider_lookup_complete_iff hrun
    (by rw [hturns]; decide) (by rw [hturns]; decide) hturns rfl
  obtain rfl : 7 = id := by simpa [searchTurn, issued, issued?] using hissued
  refine ⟨run, hturns, hiff.mpr ?_⟩
  intro first later hresults result hlater provider hprovider
  obtain ⟨-, rfl⟩ := List.cons.inj hresults
  obtain rfl := List.mem_singleton.mp hlater
  cases hprovider

end Batches

end ZingCdn
