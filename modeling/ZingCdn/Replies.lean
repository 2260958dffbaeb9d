import Mathlib.Data.List.Flatten
import ZingCdn.PendingReplies

/-!
# Replies Are Matched, Unique and Not Lost

The turns of a run of the node's loop do at its maps and reply channels what their acts do at
the table of pending replies, so the loop inherits what the table guarantees, as long as the
swarm does not hand out an id of a behaviour twice and each command brings a channel of its
own.

## Main results

* `played_of_reachable`: all turns of a run.
* `replies_matched`: no channel receives two messages; a message comes from an event of the
  behaviour and with the id of its command, or is the answer of an address query without
  connected peers; an outcome that has been processed has been replied.
-/

open Program Program.Prog Correlation

namespace ZingCdn

variable {PeerId : Type}

/-! ### Runs -/

/-- The acts of several turns. -/
def actsIn (turns : List (Turn PeerId)) : List (NodeAct PeerId) := turns.flatMap Turn.acts

/-- The messages sent on reply channels in several turns. -/
def sentIn (turns : List (Turn PeerId)) : List (Channel × Message PeerId) :=
  turns.flatMap fun turn => sent turn.calls

/-- The ids that the swarm has handed out in several turns. -/
def issuedIn (turns : List (Turn PeerId)) : List (IdSpace × RequestId) :=
  turns.flatMap fun turn => issued turn.calls

/-- The reply channels that several turns have brought. -/
def channelsIn (turns : List (Turn PeerId)) : List Channel :=
  turns.filterMap fun turn => turn.input.channel?

theorem actsIn_append (turns turns' : List (Turn PeerId)) :
    actsIn (turns ++ turns') = actsIn turns ++ actsIn turns' := List.flatMap_append

theorem sentIn_append (turns turns' : List (Turn PeerId)) :
    sentIn (turns ++ turns') = sentIn turns ++ sentIn turns' := List.flatMap_append

/-- Every turn does at the maps and the reply channels what its acts do at the table. -/
def Played (turns : List (Turn PeerId)) : Prop :=
  ∀ pre turn post, turns = pre ++ turn :: post → turn.Played (table (actsIn pre))

/-- One more turn. -/
theorem Played.snoc {turns : List (Turn PeerId)} {turn : Turn PeerId} (hturns : Played turns)
    (hturn : turn.Played (table (actsIn turns))) : Played (turns ++ [turn]) := by
  intro pre turn' post heq
  rcases List.eq_nil_or_concat post with rfl | ⟨post', last, rfl⟩
  · obtain ⟨rfl, hlast⟩ := List.append_inj' heq rfl
    obtain ⟨rfl, -⟩ := List.cons.inj hlast
    exact hturn
  · rw [List.concat_eq_append, ← List.cons_append, ← List.append_assoc] at heq
    obtain ⟨rfl, -⟩ := List.append_inj' heq rfl
    exact hturns pre turn' post' rfl

theorem Played.of_append {turns turns' : List (Turn PeerId)} (hturns : Played (turns ++ turns')) :
    Played turns := by
  rintro pre turn post rfl
  exact hturns pre turn (post ++ turns') (by simp)

theorem Played.of_mem {turns : List (Turn PeerId)} (hturns : Played turns) {turn : Turn PeerId}
    (hmem : turn ∈ turns) : ∃ pending, turn.Played pending := by
  obtain ⟨pre, post, hsplit⟩ := List.append_of_mem hmem
  exact ⟨_, hturns pre turn post hsplit⟩

/-- The commands of the turns have been handled. -/
theorem Played.handled {turns : List (Turn PeerId)} (hturns : Played turns) {turn : Turn PeerId}
    (hmem : turn ∈ turns) {cmd : P2pCommand PeerId} {reply : Channel}
    (hinput : turn.input = .command cmd reply) : cmd.Handled reply turn.calls := by
  obtain ⟨pending, hturn⟩ := hturns.of_mem hmem
  exact hturn.handled cmd reply hinput

/-- The messages of a run are those of the table. -/
theorem Played.sentIn_eq {turns : List (Turn PeerId)} (hturns : Played turns) :
    sentIn turns = replies (fun _ => none) (actsIn turns) := by
  induction turns using List.reverseRecOn with
  | nil => rfl
  | append_singleton turns turn ih =>
      have hturn := hturns turns turn [] rfl
      have hsent : sentIn [turn] = sent turn.calls := List.append_nil _
      have hacts : actsIn [turn] = turn.acts := List.append_nil _
      rw [sentIn_append, ih hturns.of_append, actsIn_append, replies_append, hsent, hacts,
        hturn.sent_eq]

/-- **All turns of a run**, and the maps that they leave. -/
theorem played_of_reachable [DecidableEq PeerId] {formats : NodeFormats PeerId}
    {config : NodeConfig PeerId} {run : NodeRun PeerId} (hrun : ReachableNode formats config run) :
    Played run.turns ∧ run.state.waiting = table (actsIn run.turns) := by
  refine Transition.Reachable.invariant
    (fun run => Played run.turns ∧ run.state.waiting = table (actsIn run.turns)) ?_ ?_ hrun
  · rintro run ⟨hturns, calls, hstart⟩
    rw [hturns, startup_eq hstart]
    exact ⟨fun pre turn post heq => by simp at heq, NodeState.waiting_initial config⟩
  · rintro _ _ ⟨hturns, hwaiting⟩ ⟨hhandle⟩
    obtain ⟨hturn, hwaiting'⟩ := NodeState.turnPlayed hhandle
    refine ⟨hturns.snoc (hwaiting ▸ hturn), ?_⟩
    have hacts : ∀ turn : Turn PeerId, actsIn [turn] = turn.acts := fun _ => List.append_nil _
    rw [hwaiting', hwaiting, actsIn_append, hacts, table, table, after_append]

/-! ### Keys and channels -/

theorem requests_answers (event : SwarmEvent PeerId) : requests event.answers = [] := by
  rw [requests, List.filterMap_eq_nil_iff]
  intro act hact
  obtain ⟨_, _, hact⟩ := List.mem_flatMap.mp hact
  obtain ⟨_, _, rfl⟩ := List.mem_map.mp hact
  rfl

theorem channels_answers (event : SwarmEvent PeerId) : channels event.answers = [] := by
  rw [channels, List.filterMap_eq_nil_iff]
  intro act hact
  obtain ⟨_, _, hact⟩ := List.mem_flatMap.mp hact
  obtain ⟨_, _, rfl⟩ := List.mem_map.mp hact
  rfl

/-- A turn opens at most requests of ids that it was handed out, and nobody but the channel of
its command comes into play. -/
theorem Turn.Played.acts_sublist {turn : Turn PeerId}
    {pending : Slot × RequestId → Option Channel} (hturn : turn.Played pending) :
    ((requests turn.acts).map fun request => (request.1.1.idSpace, request.1.2)).Sublist
        (issued turn.calls) ∧
      (channels turn.acts).Sublist turn.input.channel?.toList := by
  obtain ⟨input, calls⟩ := turn
  cases input with
  | command cmd reply => exact (hturn.handled cmd reply rfl).acts_sublist
  | event event =>
      have hrequests : requests (Turn.acts ⟨.event event, calls⟩) = [] := requests_answers event
      have hchannels : channels (Turn.acts ⟨.event event, calls⟩) = [] := channels_answers event
      rw [hrequests, hchannels]
      exact ⟨List.nil_sublist _, List.nil_sublist _⟩
  | tick => exact ⟨List.nil_sublist _, List.nil_sublist _⟩

/-- **Keys and channels are fresh** when the ids that the swarm hands out and the channels
that the commands bring are. -/
theorem Played.fresh {turns : List (Turn PeerId)} (hturns : Played turns)
    (hids : (issuedIn turns).Nodup) (hchannels : (channelsIn turns).Nodup) :
    Fresh (actsIn turns) := by
  constructor
  · have hsub : ((requests (actsIn turns)).map fun request =>
        (request.1.1.idSpace, request.1.2)).Sublist (issuedIn turns) := by
      rw [requests, actsIn, List.filterMap_flatMap, List.map_flatMap]
      refine List.Sublist.flatMap_right turns fun turn hmem => ?_
      obtain ⟨pending, hturn⟩ := hturns.of_mem hmem
      exact hturn.acts_sublist.1
    have hnodup := hids.sublist hsub
    refine List.Nodup.of_map (fun key : Slot × RequestId => (key.1.idSpace, key.2)) ?_
    rw [List.map_map]
    exact hnodup
  · have hsub : (channels (actsIn turns)).Sublist (channelsIn turns) := by
      rw [channels, actsIn, List.filterMap_flatMap, channelsIn, List.filterMap_eq_flatMap_toList]
      refine List.Sublist.flatMap_right turns fun turn hmem => ?_
      obtain ⟨pending, hturn⟩ := hturns.of_mem hmem
      exact hturn.acts_sublist.2
    exact hchannels.sublist hsub

/-! ### Every command of a run -/

/-- The answer of an address query without connected peers. -/
def Turn.RepliedAtOnce (turn : Turn PeerId) (cmd : P2pCommand PeerId) (reply : Channel) : Prop :=
  (∃ target, cmd = .queryPeerAddress target) ∧
    turn.calls = [⟨.connectedPeers, ([] : List PeerId)⟩, ⟨.reply reply (.addresses []), ()⟩]

/-- A command waits in a map when it is not replied at once. -/
theorem P2pCommand.Handled.waits {turn : Turn PeerId} {cmd : P2pCommand PeerId} {reply : Channel}
    {slot : Slot} (hcmd : cmd.Handled reply turn.calls) (hslot : cmd.slot? = some slot) :
    turn.RepliedAtOnce cmd reply ∨
      ∃ id, issued turn.calls = [(slot.idSpace, id)] ∧ sent turn.calls = [] := by
  cases hcmd with
  | requested slot' id hslot' hissued hsent =>
      obtain rfl := Option.some.inj (hslot.symm.trans hslot')
      exact .inr ⟨id, hissued, hsent⟩
  | noPeers target hcalls => exact .inl ⟨⟨target, rfl⟩, hcalls⟩
  | atOnce msg honce hsent => cases (slot?_eq_none honce).symm.trans hslot
  | silent hnone hsent => cases hnone.symm.trans hslot

/-- A message of a command's turn is on the channel that the turn has brought. -/
theorem P2pCommand.Handled.channel_eq {cmd : P2pCommand PeerId} {reply channel : Channel}
    {calls : NodeCalls PeerId} {msg : Message PeerId} (hcmd : cmd.Handled reply calls)
    (hsent : (channel, msg) ∈ sent calls) :
    channel = reply ∧ (NodeInput.command cmd reply).channel? = some reply := by
  cases hcmd with
  | requested slot id hslot hissued hnone =>
      rw [hnone] at hsent
      cases hsent
  | noPeers target hcalls =>
      rw [hcalls] at hsent
      obtain ⟨rfl, -⟩ := Prod.mk.inj (List.mem_singleton.mp hsent)
      exact ⟨rfl, rfl⟩
  | atOnce msg' honce hone =>
      rw [hone, List.mem_singleton] at hsent
      obtain ⟨rfl, -⟩ := Prod.mk.inj hsent
      exact ⟨rfl, channel?_of_once honce⟩
  | silent hslot hnone =>
      rw [hnone] at hsent
      cases hsent

/-- A request of a command is under the id it was handed out, for its own channel. -/
theorem P2pCommand.Handled.request_eq {cmd : P2pCommand PeerId} {reply channel : Channel}
    {calls : NodeCalls PeerId} {slot : Slot} {id : RequestId} (hcmd : cmd.Handled reply calls)
    (hrequest : ((slot, id), channel) ∈ requests (cmd.acts reply calls)) :
    channel = reply ∧ cmd.slot? = some slot ∧ issued calls = [(slot.idSpace, id)] := by
  cases hcmd with
  | requested slot' id' hslot hissued hnone =>
      rw [acts_requested hslot hissued] at hrequest
      obtain ⟨hkey, rfl⟩ := Prod.mk.inj (List.mem_singleton.mp hrequest)
      obtain ⟨rfl, rfl⟩ := Prod.mk.inj hkey
      exact ⟨rfl, hslot, hissued⟩
  | noPeers target hcalls =>
      rw [hcalls] at hrequest
      cases hrequest
  | atOnce msg honce hone =>
      rw [acts_direct (slot?_eq_none honce), requests_direct] at hrequest
      cases hrequest
  | silent hslot hnone =>
      rw [acts_direct hslot, requests_direct] at hrequest
      cases hrequest

/-- A request of a run has been opened by a command. -/
theorem Played.exists_of_request {turns : List (Turn PeerId)} (hturns : Played turns)
    {slot : Slot} {id : RequestId} {channel : Channel}
    (hrequest : ((slot, id), channel) ∈ requests (actsIn turns)) :
    ∃ turn ∈ turns, ∃ cmd, turn.input = .command cmd channel ∧ cmd.slot? = some slot ∧
      issued turn.calls = [(slot.idSpace, id)] := by
  rw [requests, actsIn, List.filterMap_flatMap] at hrequest
  obtain ⟨⟨input, calls⟩, hmem, hrequest⟩ := List.mem_flatMap.mp hrequest
  cases input with
  | command cmd reply =>
      obtain ⟨rfl, hslot, hissued⟩ := (hturns.handled hmem rfl).request_eq hrequest
      exact ⟨_, hmem, cmd, rfl, hslot, hissued⟩
  | event event =>
      have hnone : requests (Turn.acts ⟨.event event, calls⟩) = [] := requests_answers event
      cases (congrArg (_ ∈ ·) hnone).mp hrequest
  | tick => cases hrequest

/-! ### Answers of events -/

/-- The messages of a result are for the maps of its kind. -/
theorem QueryResult.map_fst_messages (result : QueryResult PeerId) :
    result.messages.map Prod.fst = result.slots := by
  rcases result with (_ | _ | _) | _ | _ | (_ | _) | _ | _ <;> rfl

theorem QueryResult.idSpace_of_mem {result : QueryResult PeerId} {slot : Slot}
    (hslot : slot ∈ result.slots) : slot.idSpace = .kad := by
  cases result with
  | getProviders r =>
      obtain rfl := List.mem_singleton.mp hslot
      rfl
  | getRecord r =>
      rcases List.mem_cons.mp hslot with rfl | hslot
      · rfl
      · obtain rfl := List.mem_singleton.mp hslot
        rfl
  | startProviding | bootstrap | putRecord | other => cases hslot

/-- The maps of the messages of an event are of its behaviour. -/
theorem SwarmEvent.idSpace_eq {event : SwarmEvent PeerId} {slot : Slot} {msg : Message PeerId}
    {space : IdSpace} {id : RequestId} (hid : event.id? = some (space, id))
    (hmsg : (slot, msg) ∈ event.messages) : slot.idSpace = space := by
  rcases event with (event | event | event | event | event | _ | _ | _) | _ | _
  · rcases event with _ | ⟨id', result⟩ | _
    · cases hid
    · obtain ⟨rfl, -⟩ := Prod.mk.inj (Option.some.inj hid)
      exact QueryResult.idSpace_of_mem (result.map_fst_messages ▸ List.mem_map_of_mem hmsg)
    · cases hid
  all_goals
    first
    | cases hid
    | obtain ⟨outcome, -, heq⟩ := Option.map_eq_some_iff.mp hid
      obtain ⟨rfl, -⟩ := Prod.mk.inj heq
      obtain ⟨_, -, heq⟩ := List.mem_map.mp hmsg
      obtain ⟨rfl, -⟩ := Prod.mk.inj heq
      rfl

/-- What the answers of an event say. -/
theorem SwarmEvent.mem_answers_iff {event : SwarmEvent PeerId} {act : NodeAct PeerId} :
    act ∈ event.answers ↔ ∃ slot id msg, event.id? = some (slot.idSpace, id) ∧
      (slot, msg) ∈ event.messages ∧ act = .answer (slot, id) msg := by
  constructor
  · intro hact
    obtain ⟨⟨space, id⟩, hid, hact⟩ := List.mem_flatMap.mp hact
    obtain ⟨⟨slot, msg⟩, hmsg, rfl⟩ := List.mem_map.mp hact
    have hid := Option.mem_toList.mp hid
    obtain rfl := idSpace_eq hid hmsg
    exact ⟨slot, id, msg, hid, hmsg, rfl⟩
  · rintro ⟨slot, id, msg, hid, hmsg, rfl⟩
    exact List.mem_flatMap.mpr ⟨_, Option.mem_toList.mpr hid, List.mem_map_of_mem hmsg⟩

/-- **An outcome is answered.** -/
theorem SwarmEvent.Reports.exists_answer {event : SwarmEvent PeerId} {slot : Slot}
    {id : RequestId} (hreports : event.Reports slot id) :
    ∃ msg, .answer (slot, id) msg ∈ event.answers := by
  suffices h : ∃ msg, event.id? = some (slot.idSpace, id) ∧ (slot, msg) ∈ event.messages by
    obtain ⟨msg, hid, hmsg⟩ := h
    exact ⟨msg, mem_answers_iff.mpr ⟨slot, id, msg, hid, hmsg, rfl⟩⟩
  rcases event with (event | event | event | event | event | _ | _ | _) | _ | _
  · rcases event with _ | ⟨id', result⟩ | _
    · cases hreports
    · obtain ⟨rfl, hslot⟩ := hreports
      have hspace := QueryResult.idSpace_of_mem hslot
      rw [← result.map_fst_messages] at hslot
      obtain ⟨⟨_, msg⟩, hmsg, rfl⟩ := List.mem_map.mp hslot
      exact ⟨msg, congrArg (fun space => some (space, id')) hspace.symm, hmsg⟩
    · cases hreports
  all_goals
    first
    | cases hreports
    | obtain ⟨outcome, houtcome, heq⟩ := Option.map_eq_some_iff.mp hreports
      obtain ⟨hspace, rfl⟩ := Prod.mk.inj heq
      cases slot <;> cases hspace
      exact ⟨_, hreports, List.mem_map_of_mem (Option.mem_toList.mpr houtcome)⟩

/-! ### Every command of a run -/

section Run

variable {turns pre post : List (Turn PeerId)} {turn : Turn PeerId}

/-- **Messages of events are matched**: they are on the channels of the requests that the
events are about. -/
theorem Played.reported (hturns : Played turns) (hfresh : Fresh (actsIn turns))
    (hsplit : turns = pre ++ turn :: post) {event : SwarmEvent PeerId}
    (hinput : turn.input = .event event) {channel : Channel} {msg : Message PeerId}
    (hsent : (channel, msg) ∈ sent turn.calls) :
    ∃ slot id, event.id? = some (slot.idSpace, id) ∧ (slot, msg) ∈ event.messages ∧
      ((slot, id), channel) ∈ requests (actsIn pre) := by
  have hacts : turn.acts = event.answers := by rw [Turn.acts, hinput]
  rw [(hturns pre turn post hsplit).sent_eq, hacts] at hsent
  obtain ⟨acts₁, act, acts₂, hanswers, hact⟩ := exists_of_mem_replies hsent
  have hmem : act ∈ event.answers := by
    rw [hanswers]
    exact List.mem_append_right _ List.mem_cons_self
  obtain ⟨slot, id, msg', hid, hmsg, rfl⟩ := SwarmEvent.mem_answers_iff.mp hmem
  have hall : actsIn turns
      = actsIn pre ++ acts₁ ++ (.answer (slot, id) msg' :: acts₂ ++ actsIn post) := by
    have hcons : actsIn (turn :: post) = turn.acts ++ actsIn post := List.flatMap_cons
    rw [hsplit, actsIn_append, hcons, hacts, hanswers]
    simp only [List.append_assoc, List.cons_append]
  rw [hall] at hfresh
  rw [← after_append] at hact
  obtain ⟨hrequest, rfl⟩ := mem_requests_of_reply hfresh.of_append hact
  refine ⟨slot, id, hid, hmsg, ?_⟩
  have hnone : requests acts₁ = [] := by
    have hnone := requests_answers event
    rw [hanswers, requests_append] at hnone
    exact (List.append_eq_nil_iff.mp hnone).1
  rw [requests_append, hnone, List.append_nil] at hrequest
  exact hrequest

/-- **The channel of a command is the command's**: what it is sent is sent by the turn of the
command, or by an event about its request in a later turn. -/
theorem Played.source (hturns : Played turns) (hfresh : Fresh (actsIn turns))
    (hchannels : (channelsIn turns).Nodup) (hsplit : turns = pre ++ turn :: post)
    {cmd : P2pCommand PeerId} {reply : Channel} {slot : Slot} {msg : Message PeerId}
    (hinput : turn.input = .command cmd reply) (hslot : cmd.slot? = some slot)
    (hmsg : (reply, msg) ∈ sentIn turns) :
    (reply, msg) ∈ sent turn.calls ∨
      ∃ id, issued turn.calls = [(slot.idSpace, id)] ∧
        ∃ done ∈ post, ∃ event, done.input = .event event ∧ (reply, msg) ∈ sent done.calls ∧
          event.id? = some (slot.idSpace, id) ∧ (slot, msg) ∈ event.messages := by
  obtain ⟨done, hdone, hsent⟩ := List.mem_flatMap.mp hmsg
  obtain ⟨pre', post', hsplit'⟩ := List.append_of_mem hdone
  have hchannel : turn.input.channel? = some reply := by
    rw [hinput]
    exact P2pCommand.channel?_of_slot hslot
  rw [hsplit] at hchannels
  rcases hinput' : done.input with ⟨cmd', reply'⟩ | event | -
  · obtain ⟨rfl, hchannel'⟩ := (hturns.handled hdone hinput').channel_eq hsent
    rw [← hinput'] at hchannel'
    obtain ⟨-, rfl, -⟩ := split_unique hchannels (hsplit ▸ hsplit') hchannel hchannel'
    exact .inl hsent
  · obtain ⟨slot', id, hid, hmsg', hrequest⟩ :=
      hturns.reported hfresh hsplit' hinput' hsent
    have hpre : Played pre' := (hsplit' ▸ hturns).of_append
    obtain ⟨opening, hopening, cmd', hinput₀, hslot', hissued⟩ := hpre.exists_of_request hrequest
    obtain ⟨pre₀, mid, rfl⟩ := List.append_of_mem hopening
    have hchannel' : opening.input.channel? = some reply := by
      rw [hinput₀]
      exact P2pCommand.channel?_of_slot hslot'
    have hsplit₀ : pre ++ turn :: post = pre₀ ++ opening :: (mid ++ done :: post') := by
      rw [← hsplit, hsplit', List.append_assoc, List.cons_append]
    obtain ⟨-, rfl, rfl⟩ := split_unique hchannels hsplit₀ hchannel hchannel'
    obtain ⟨rfl, -⟩ := NodeInput.command.inj (hinput.symm.trans hinput₀)
    obtain rfl := Option.some.inj (hslot.symm.trans hslot')
    exact .inr ⟨id, hissued, done, List.mem_append_right _ List.mem_cons_self, event, hinput',
      hsent, hid, hmsg'⟩
  · have hacts : done.acts = [] := by rw [Turn.acts, hinput']
    rw [(hturns pre' done post' hsplit').sent_eq, hacts] at hsent
    cases hsent

/-- **Outcomes are not lost**: once the outcome of a request has been processed, its channel
has been sent a message, and nothing waits under its id or for its channel. -/
theorem Played.settled (hturns : Played turns) (hfresh : Fresh (actsIn turns))
    {mid rest : List (Turn PeerId)} {done : Turn PeerId}
    (hsplit : turns = pre ++ turn :: (mid ++ done :: rest)) {cmd : P2pCommand PeerId}
    {reply : Channel} {slot : Slot} {id : RequestId} {event : SwarmEvent PeerId}
    (hinput : turn.input = .command cmd reply) (hslot : cmd.slot? = some slot)
    (hissued : issued turn.calls = [(slot.idSpace, id)]) (hdone : done.input = .event event)
    (hreports : event.Reports slot id) :
    reply ∈ (sentIn (pre ++ turn :: (mid ++ [done]))).map Prod.fst ∧
      table (actsIn turns) (slot, id) = none ∧ ∀ key, table (actsIn turns) key ≠ some reply := by
  obtain ⟨msg, hanswer⟩ := hreports.exists_answer
  obtain ⟨acts₁, acts₂, hanswers⟩ := List.append_of_mem hanswer
  have hopened : turn.acts = [.request (slot, id) reply] := by
    rw [Turn.acts, hinput]
    exact P2pCommand.acts_requested hslot hissued
  have hanswered : done.acts = acts₁ ++ .answer (slot, id) msg :: acts₂ := by
    rw [Turn.acts, hdone]
    exact hanswers
  have hfront : actsIn (pre ++ turn :: (mid ++ [done]))
      = actsIn (pre ++ turn :: mid) ++ acts₁ ++ [.answer (slot, id) msg] ++ acts₂ := by
    simp [actsIn, hanswered]
  have hturns' : turns = pre ++ turn :: (mid ++ [done]) ++ rest := by
    simp [hsplit]
  have hall : actsIn turns = actsIn (pre ++ turn :: mid) ++ acts₁ ++
      .answer (slot, id) msg :: (acts₂ ++ actsIn rest) := by
    rw [hturns', actsIn_append, hfront]
    simp
  have hmem : ((slot, id), reply) ∈ requests (actsIn (pre ++ turn :: mid) ++ acts₁) := by
    simp [actsIn, hopened, requests, Act.request?]
  rw [hall] at hfresh ⊢
  obtain ⟨hreplied, hclosed, hnobody⟩ := answered_of_mem hfresh hmem
  refine ⟨?_, hclosed, hnobody⟩
  have hpre : Played (pre ++ turn :: (mid ++ [done])) := (hturns' ▸ hturns).of_append
  rw [hpre.sentIn_eq, hfront, replies_append, List.map_append]
  exact List.mem_append_left _ hreplied

/-- What holds of a command of a run that waits for its reply in a map. -/
structure RepliesMatched (run : NodeRun PeerId) (turn : Turn PeerId) (post : List (Turn PeerId))
    (cmd : P2pCommand PeerId) (reply : Channel) (slot : Slot) : Prop where
  /-- its channel receives at most one message -/
  once : ((sentIn run.turns).map Prod.fst).count reply ≤ 1
  /-- the message is the answer of an address query without connected peers, or what an event
  of the same behaviour says that carries the id issued for the command -/
  matched : ∀ msg, (reply, msg) ∈ sentIn run.turns →
    (turn.RepliedAtOnce cmd reply ∧ msg = .addresses []) ∨
      ∃ id, issued turn.calls = [(slot.idSpace, id)] ∧
        ∃ done ∈ post, ∃ event, done.input = .event event ∧ (reply, msg) ∈ sent done.calls ∧
          event.id? = some (slot.idSpace, id) ∧ (slot, msg) ∈ event.messages
  /-- after the outcome the message has been sent, and no pending entry remains -/
  settled : turn.RepliedAtOnce cmd reply ∨
    ∃ id, issued turn.calls = [(slot.idSpace, id)] ∧ ∀ mid done rest event,
      post = mid ++ done :: rest → done.input = .event event → event.Reports slot id →
        (∃ msg, (reply, msg) ∈ sentIn (mid ++ [done])) ∧
          (run.state.pending slot).lookup id = none ∧
          ∀ slot' id', (run.state.pending slot').lookup id' ≠ some reply

end Run

/-- **Replies are matched, unique and not lost**: in every run of the loop in which the swarm
hands out no id of a behaviour twice, for every command that waits in a map. Each command
brings a channel of its own. -/
theorem replies_matched [DecidableEq PeerId] {formats : NodeFormats PeerId}
    {config : NodeConfig PeerId} {run : NodeRun PeerId} (hrun : ReachableNode formats config run)
    (hids : (issuedIn run.turns).Nodup) (hchannels : (channelsIn run.turns).Nodup)
    {pre post : List (Turn PeerId)} {turn : Turn PeerId} {cmd : P2pCommand PeerId}
    {reply : Channel} {slot : Slot} (hsplit : run.turns = pre ++ turn :: post)
    (hinput : turn.input = .command cmd reply) (hslot : cmd.slot? = some slot) :
    RepliesMatched run turn post cmd reply slot := by
  obtain ⟨hturns, hwaiting⟩ := played_of_reachable hrun
  have hfresh := hturns.fresh hids hchannels
  have honce : ((sentIn run.turns).map Prod.fst).Nodup := by
    rw [hturns.sentIn_eq]
    exact (Table.of_fresh hfresh).once
  have hmem : turn ∈ run.turns := hsplit ▸ List.mem_append_right _ List.mem_cons_self
  have hwaits := (hturns.handled hmem hinput).waits hslot
  refine ⟨List.nodup_iff_count_le_one.mp honce reply, fun msg hmsg => ?_, ?_⟩
  · rcases hturns.source hfresh hchannels hsplit hinput hslot hmsg with hsent | hlater
    · rcases hwaits with hatOnce | ⟨id, -, hnone⟩
      · have hmsg : (reply, msg) ∈ [(reply, Message.addresses [])] := by
          rw [hatOnce.2] at hsent
          exact hsent
        obtain ⟨-, rfl⟩ := Prod.mk.inj (List.mem_singleton.mp hmsg)
        exact .inl ⟨hatOnce, rfl⟩
      · rw [hnone] at hsent
        cases hsent
    · exact .inr hlater
  · refine hwaits.imp_right fun ⟨id, hissued, hnone⟩ => ⟨id, hissued, ?_⟩
    rintro mid done rest event rfl hdone hreports
    obtain ⟨hreplied, hclosed, hnobody⟩ :=
      hturns.settled hfresh hsplit hinput hslot hissued hdone hreports
    rw [← hwaiting] at hclosed hnobody
    refine ⟨?_, hclosed, fun slot' id' => hnobody (slot', id')⟩
    -- the message was not sent before the request, by the same argument for the run so far
    obtain ⟨⟨_, msg⟩, hmsg, rfl⟩ := List.mem_map.mp hreplied
    have hfront : run.turns = pre ++ turn :: (mid ++ [done]) ++ rest := by simp [hsplit]
    rw [hfront, actsIn_append] at hfresh
    rw [hfront, channelsIn, List.filterMap_append] at hchannels
    rcases (hfront ▸ hturns).of_append.source hfresh.of_append hchannels.of_append_left rfl hinput
      hslot hmsg with hsent | ⟨_, _, done', hdone', _, _, hsent, _⟩
    · rw [hnone] at hsent
      cases hsent
    · exact ⟨msg, List.mem_flatMap.mpr ⟨done', hdone', hsent⟩⟩

section Crossed

def crossedFormats : NodeFormats ℕ :=
  ⟨fun _ => [], fun _ => true, fun addr _ => addr, fun _ => .error "no blob id"⟩

def crossedConfig : NodeConfig ℕ := ⟨0, "/ip4", [], [], none, none⟩

/-- A search whose query has the id 7. -/
def searchTurn : Turn ℕ :=
  ⟨.command (.findProviders zeroBytes32) 0, [⟨.getProviders zeroBytes32.toList, (7 : ℕ)⟩]⟩

/-- A fetch whose request has the id 7. -/
def fetchTurn : Turn ℕ :=
  ⟨.command (.fetchBlob 5 zeroBytes32 zeroBytes32) 1,
    [⟨.sendBlobRequest 5 ⟨zeroBytes32, 0, zeroBytes32⟩, (7 : ℕ)⟩]⟩

/-- The response to the fetch. -/
def responseTurn : Turn ℕ :=
  ⟨.event (.behaviour (.data (.response 7 ⟨some 3, some [1, 2, 3]⟩))),
    [⟨.reply 1 (.data (.ok [1, 2, 3])), ()⟩]⟩

/-- The result of the search. -/
def resultTurn : Turn ℕ :=
  ⟨.event (.behaviour (.kad (.outboundQueryProgressed 7
      (.getProviders (.ok (.foundProviders [4])))))), [⟨.reply 0 (.peers [4]), ()⟩]⟩

/-- A search and a fetch under equal ids, answered in the other order. -/
def crossedRun : NodeRun ℕ where
  state := ((((NodeState.initial crossedConfig).insert .finds 7 0).insert .fetches 7 1).remove
    .fetches 7).remove .finds 7
  turns := [searchTurn, fetchTurn, responseTurn, resultTurn]

theorem reachable_searchTurn : ReachableNode crossedFormats crossedConfig
    ⟨(NodeState.initial crossedConfig).insert .finds 7 0, [searchTurn]⟩ := by
  have hstart : ReachableNode crossedFormats crossedConfig ⟨.initial crossedConfig, []⟩ :=
    Transition.Reachable.of_init ⟨rfl, _, runs_call_iff.mpr ⟨.ok (), [], rfl, .ret _⟩⟩
  exact hstart.snoc (.turn (runs_call_iff.mpr ⟨(7 : ℕ), [], rfl, .ret _⟩))

theorem reachable_crossedRun :
    ReachableNode crossedFormats crossedConfig crossedRun := by
  have hfetch : ReachableNode crossedFormats crossedConfig ⟨_, [searchTurn, fetchTurn]⟩ :=
    reachable_searchTurn.snoc (.turn (runs_call_iff.mpr ⟨(7 : ℕ), [], rfl, .ret _⟩))
  have hresponse : ReachableNode crossedFormats crossedConfig
      ⟨_, [searchTurn, fetchTurn, responseTurn]⟩ :=
    hfetch.snoc (.turn (runs_call_iff.mpr ⟨(), [], rfl, .ret _⟩))
  exact hresponse.snoc (.turn (runs_call_iff.mpr ⟨(), [], rfl, .ret _⟩))

/-- The search is told what the query found, not what the fetch got. -/
theorem replies_matched_crossed :
    RepliesMatched crossedRun searchTurn [fetchTurn, responseTurn, resultTurn]
      (.findProviders zeroBytes32) 0 .finds := by
  have hsplit : crossedRun.turns = [] ++ searchTurn :: [fetchTurn, responseTurn, resultTurn] := rfl
  exact replies_matched reachable_crossedRun (by decide) (by decide) hsplit rfl rfl

end Crossed

end ZingCdn
