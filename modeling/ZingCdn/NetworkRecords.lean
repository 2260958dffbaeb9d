import ZingCdn.NetworkSafety

/-!
# Records and Providers in a Network of Nodes

A node puts its Sui address and its vault into the DHT under keys made of a tag and its peer
id, and looks the records of a peer up under the keys of the peer. Nothing about a record is
signed, and nobody checks who puts it: a peer that does not run this program can put any value
under the key of another. Among nodes that do run it, the keys keep everything apart.

## Main results

* `RecordKind.key_injective`: no two records share a key.
* `Deployment.record_genuine`: what a lookup of an address or a vault gets.
* `Deployment.providers_genuine`: who is found as a provider.
-/

open Program Program.Prog

namespace ZingCdn

variable {PeerId : Type} [DecidableEq PeerId]

/-! ### Records -/

/-- The two records that a node publishes about itself. -/
inductive RecordKind
  | suiAddr
  | vault
deriving DecidableEq

namespace RecordKind

/-- The command that looks the record of a peer up. -/
def lookup (peer : PeerId) : RecordKind → P2pCommand PeerId
  | .suiAddr => .getPeerSuiAddress peer
  | .vault => .getPeerVault peer

/-- The map in which it waits. -/
def slot : RecordKind → Slot
  | .suiAddr => .suiAddrQueries
  | .vault => .vaultQueries

/-- The key of the record of a peer. -/
def key (formats : NodeFormats PeerId) (peer : PeerId) : RecordKind → Bytes
  | .suiAddr => suiAddrKey formats peer
  | .vault => vaultKey formats peer

/-- What a node publishes. -/
def own (config : NodeConfig PeerId) : RecordKind → Option Bytes32
  | .suiAddr => config.suiAddress
  | .vault => config.vaultObjectId

end RecordKind

omit [DecidableEq PeerId] in
/-- The own records, by their kinds. -/
theorem mem_records_iff {config : NodeConfig PeerId} {formats : NodeFormats PeerId}
    {key value : Bytes} : (key, value) ∈ config.records formats ↔
      ∃ (kind : RecordKind) (v : Bytes32), kind.own config = some v ∧
        key = kind.key formats config.localPeerId ∧ value = v.toList := by
  rw [NodeConfig.records, List.mem_append, List.mem_map, List.mem_map]
  constructor
  · rintro (⟨v, hv, heq⟩ | ⟨v, hv, heq⟩)
    · obtain ⟨rfl, rfl⟩ := Prod.mk.inj heq
      exact ⟨.suiAddr, v, Option.mem_toList.mp hv, rfl, rfl⟩
    · obtain ⟨rfl, rfl⟩ := Prod.mk.inj heq
      exact ⟨.vault, v, Option.mem_toList.mp hv, rfl, rfl⟩
  · rintro ⟨kind, v, hv, rfl, rfl⟩
    cases kind with
    | suiAddr => exact .inl ⟨v, Option.mem_toList.mpr hv, rfl⟩
    | vault => exact .inr ⟨v, Option.mem_toList.mpr hv, rfl⟩

omit [DecidableEq PeerId] in
/-- **No two records share a key**: neither two of different peers nor the two of one peer. -/
theorem RecordKind.key_injective {formats : NodeFormats PeerId}
    (hbytes : Function.Injective formats.peerIdToBytes) {kind kind' : RecordKind}
    {peer peer' : PeerId} (h : kind.key formats peer = kind'.key formats peer') :
    kind = kind' ∧ peer = peer' := by
  -- the tags differ in their sixth byte
  have hsui : ∀ peer : PeerId, (suiAddrKey formats peer).take 6 = [122, 105, 110, 103, 45, 115] :=
    fun _ => rfl
  have hvault : ∀ peer : PeerId, (vaultKey formats peer).take 6 = [122, 105, 110, 103, 45, 118] :=
    fun _ => rfl
  cases kind <;> cases kind'
  · exact ⟨rfl, hbytes (List.append_cancel_left h)⟩
  · have htags := congrArg (List.take 6) h
    rw [key, key, hsui, hvault] at htags
    simp at htags
  · have htags := congrArg (List.take 6) h
    rw [key, key, hsui, hvault] at htags
    simp at htags
  · exact ⟨rfl, hbytes (List.append_cancel_left h)⟩

omit [DecidableEq PeerId] in
/-- A lookup that is told a value got a record of 32 bytes. -/
theorem SwarmEvent.record_of_message {event : SwarmEvent PeerId} {kind : RecordKind}
    {id : RequestId} {v : Bytes32} (hid : event.id? = some (.kad, id))
    (hmsg : (kind.slot, .record (some v)) ∈ event.messages) :
    event = .behaviour (.kad (.outboundQueryProgressed id
      (.getRecord (.ok (.foundRecord v.toList))))) := by
  rcases event with (event | event | event | event | event | _ | _ | _) | _ | _
  · rcases event with _ | ⟨id', result⟩ | _
    · cases hid
    · cases hid
      cases result with
      | getProviders r =>
          rcases r with _ | _ | _ <;> cases kind <;> cases List.mem_singleton.mp hmsg
      | getRecord r =>
          rcases r with e | ok
          · cases kind <;> simp [SwarmEvent.messages, QueryResult.messages, RecordKind.slot] at hmsg
          · have hvalue : getRecordValue ok = some v := by
              cases kind <;>
                simpa [SwarmEvent.messages, QueryResult.messages, RecordKind.slot, eq_comm]
                  using hmsg
            rcases ok with value | _
            · rw [getRecordValue] at hvalue
              split at hvalue
              · obtain rfl := Option.some.inj hvalue
                rfl
              · cases hvalue
            · cases hvalue
      | startProviding | bootstrap | putRecord | other => cases hmsg
    · cases hid
  all_goals
    first
    | cases hid
    | obtain ⟨outcome, -, heq⟩ := List.mem_map.mp hmsg
      cases kind <;> cases heq

omit [DecidableEq PeerId] in
/-- A search that is told a provider got a batch of providers. -/
theorem SwarmEvent.providers_of_message {event : SwarmEvent PeerId} {id : RequestId}
    {providers : List PeerId} (hid : event.id? = some (.kad, id))
    (hmsg : (.finds, .peers providers) ∈ event.messages) {m : PeerId} (hm : m ∈ providers) :
    event = .behaviour (.kad (.outboundQueryProgressed id
      (.getProviders (.ok (.foundProviders providers))))) := by
  rcases event with (event | event | event | event | event | _ | _ | _) | _ | _
  · rcases event with _ | ⟨id', result⟩ | _
    · cases hid
    · cases hid
      cases result with
      | getProviders r =>
          rcases r with e | found | _ <;> cases List.mem_singleton.mp hmsg
          · cases hm
          · rfl
          · cases hm
      | getRecord r => rcases r with _ | _ <;> simp [messages, QueryResult.messages] at hmsg
      | startProviding | bootstrap | putRecord | other => cases hmsg
    · cases hid
  all_goals
    first
    | cases hid
    | obtain ⟨outcome, -, heq⟩ := List.mem_map.mp hmsg
      cases heq

namespace Deployment

variable {dep : Deployment PeerId} {net : Parties.Network PeerId (Host PeerId) (Packet PeerId)}

/-- What a lookup gets was put under the key of the peer. -/
theorem record_published (hnet : dep.Reachable net) {n m : PeerId}
    (hids : (issuedIn (net.locals n).run.turns).Nodup)
    (hchannels : (channelsIn (net.locals n).run.turns).Nodup) {turn : Turn PeerId}
    (hturn : turn ∈ (net.locals n).run.turns) {kind : RecordKind} {reply : Channel}
    (hinput : turn.input = .command (kind.lookup m) reply) {v : Bytes32}
    (hmsg : (reply, .record (some v)) ∈ sentIn (net.locals n).run.turns) :
    ∃ publisher, .record publisher (kind.key dep.formats m) v.toList ∈ net.wire := by
  have hrun := run_of_reachable hnet n
  have hslot : (kind.lookup m).slot? = some kind.slot := by cases kind <;> rfl
  have hspace : kind.slot.idSpace = .kad := by cases kind <;> rfl
  rcases hrun.reply_source hids hchannels hturn hinput hslot hmsg with
    ⟨haddr, -⟩ | ⟨id, event, hissued, hid, hmessage, before, done, after, hsplit, hdone⟩
  · cases kind <;> cases haddr
  rw [hspace] at hissued hid
  obtain rfl := SwarmEvent.record_of_message hid hmessage
  obtain ⟨streams, streams', harrives⟩ := arrived_of_reachable hnet n before done after hsplit
  rw [hdone] at harrives
  obtain ⟨publisher, key, hquery, hpacket⟩ := harrives.of_record
  -- the key that was asked for under the id is the key of the peer
  obtain ⟨asking, hasking, hquery⟩ := List.mem_flatMap.mp hquery
  have hkey : (IdSpace.kad, id) ∈ issued turn.calls := hissued ▸ List.mem_cons_self
  obtain rfl := turn_eq_of_issued hids hturn (hsplit ▸ List.mem_append_left _ hasking) hkey
    (List.mem_filterMap.mpr ⟨_, hquery, rfl⟩)
  obtain ⟨s, _, -, -, hadmits⟩ := hrun.admits hturn
  obtain ⟨peer, reply', hcommand⟩ := hadmits _ hquery
  rw [hinput] at hcommand
  have hkey : key = kind.key dep.formats m := by
    cases kind with
    | suiAddr =>
        rcases hcommand with ⟨heq, rfl⟩ | ⟨heq, -⟩ <;> cases heq
        rfl
    | vault =>
        rcases hcommand with ⟨heq, -⟩ | ⟨heq, rfl⟩ <;> cases heq
        rfl
  exact ⟨publisher, hkey ▸ hpacket⟩

/-- What is put under the key of a peer is the peer's own record, or forged. -/
theorem own_of_published (hbytes : Function.Injective dep.formats.peerIdToBytes)
    (hnet : dep.Reachable net) {publisher m : PeerId} {kind : RecordKind} {v : Bytes32}
    (hpacket : .record publisher (kind.key dep.formats m) v.toList ∈ net.wire) :
    kind.own (dep.config m) = some v ∨ ¬ dep.honest publisher := by
  rcases sent_of_wire hnet hpacket with ⟨k, rfl, hown⟩ | ⟨_, _, hforged⟩
  · obtain ⟨kind', v', hv', hkeys, hvalue⟩ := mem_records_iff.mp hown
    rw [dep.localPeerId_eq] at hkeys
    obtain ⟨rfl, rfl⟩ := RecordKind.key_injective hbytes hkeys
    left
    rw [hv', List.Vector.eq _ _ hvalue]
  · exact .inr hforged

/-- **A lookup gets the peer's own record**, or one that somebody who does not run this program
has put under the key of the peer, which is the key of no other record. -/
theorem record_genuine (hbytes : Function.Injective dep.formats.peerIdToBytes)
    (hnet : dep.Reachable net) {n m : PeerId}
    (hids : (issuedIn (net.locals n).run.turns).Nodup)
    (hchannels : (channelsIn (net.locals n).run.turns).Nodup) {turn : Turn PeerId}
    (hturn : turn ∈ (net.locals n).run.turns) {kind : RecordKind} {reply : Channel}
    (hinput : turn.input = .command (kind.lookup m) reply) {v : Bytes32}
    (hmsg : (reply, .record (some v)) ∈ sentIn (net.locals n).run.turns) :
    (kind.own (dep.config m) = some v ∨ ∃ publisher, ¬ dep.honest publisher ∧
      .record publisher (kind.key dep.formats m) v.toList ∈ net.wire) ∧
    ∀ (kind' : RecordKind) (m' : PeerId), kind'.key dep.formats m' = kind.key dep.formats m →
      kind' = kind ∧ m' = m := by
  obtain ⟨publisher, hpacket⟩ := record_published hnet hids hchannels hturn hinput hmsg
  refine ⟨?_, fun _ _ hkeys => RecordKind.key_injective hbytes hkeys⟩
  exact (own_of_published hbytes hnet hpacket).imp_right fun hforged =>
    ⟨publisher, hforged, hpacket⟩

/-- Somebody has named a peer that is found as a provider of the blob. -/
theorem provider_claimed (hnet : dep.Reachable net) {n : PeerId}
    (hids : (issuedIn (net.locals n).run.turns).Nodup)
    (hchannels : (channelsIn (net.locals n).run.turns).Nodup) {turn : Turn PeerId}
    (hturn : turn ∈ (net.locals n).run.turns) {blobId : Bytes32} {reply : Channel}
    (hinput : turn.input = .command (.findProviders blobId) reply) {providers : List PeerId}
    (hmsg : (reply, .peers providers) ∈ sentIn (net.locals n).run.turns) {m : PeerId}
    (hm : m ∈ providers) : ∃ claimant, .provider claimant m blobId.toList ∈ net.wire := by
  have hrun := run_of_reachable hnet n
  rcases hrun.reply_source hids hchannels hturn hinput rfl hmsg with
    ⟨haddr, -⟩ | ⟨id, event, hissued, hid, hmessage, before, done, after, hsplit, hdone⟩
  · cases haddr
  obtain rfl := SwarmEvent.providers_of_message hid hmessage hm
  obtain ⟨streams, streams', harrives⟩ := arrived_of_reachable hnet n before done after hsplit
  rw [hdone] at harrives
  obtain ⟨key, hquery, hclaims⟩ := harrives.of_providers
  obtain ⟨asking, hasking, hquery⟩ := List.mem_flatMap.mp hquery
  have hkey : (IdSpace.kad, id) ∈ issued turn.calls := hissued ▸ List.mem_cons_self
  obtain rfl := turn_eq_of_issued hids hturn (hsplit ▸ List.mem_append_left _ hasking) hkey
    (List.mem_filterMap.mpr ⟨_, hquery, rfl⟩)
  obtain ⟨s, _, -, -, hadmits⟩ := hrun.admits hturn
  obtain ⟨blobId', reply', hcommand, rfl⟩ := hadmits _ hquery
  rw [hinput] at hcommand
  cases hcommand
  exact hclaims m hm

/-- Who is named as a provider has announced the blob, or is named by somebody who does not run
this program. -/
theorem provided_of_claimed (hnet : dep.Reachable net) {claimant m : PeerId} {blobId : Bytes32}
    (hpacket : .provider claimant m blobId.toList ∈ net.wire) :
    Provided (net.locals m).run.turns blobId ∨ ¬ dep.honest claimant := by
  rcases sent_of_wire hnet hpacket with ⟨k, rfl, rfl, hprovided⟩ | ⟨_, _, hforged⟩
  · exact .inl hprovided
  · exact .inr hforged

/-- **Who is found as a provider** has announced the blob, or was named by somebody who does not
run this program. -/
theorem providers_genuine (hnet : dep.Reachable net) {n : PeerId}
    (hids : (issuedIn (net.locals n).run.turns).Nodup)
    (hchannels : (channelsIn (net.locals n).run.turns).Nodup) {turn : Turn PeerId}
    (hturn : turn ∈ (net.locals n).run.turns) {blobId : Bytes32} {reply : Channel}
    (hinput : turn.input = .command (.findProviders blobId) reply) {providers : List PeerId}
    (hmsg : (reply, .peers providers) ∈ sentIn (net.locals n).run.turns) {m : PeerId}
    (hm : m ∈ providers) :
    Provided (net.locals m).run.turns blobId ∨ ∃ claimant, ¬ dep.honest claimant ∧
      .provider claimant m blobId.toList ∈ net.wire := by
  obtain ⟨claimant, hpacket⟩ := provider_claimed hnet hids hchannels hturn hinput hmsg hm
  exact (provided_of_claimed hnet hpacket).imp_right fun hforged => ⟨claimant, hforged, hpacket⟩

end Deployment

/-! ### Two nodes -/

section Pair

open Deployment

/-- The address record of the node 1. -/
def pairRecord : Event (@NodeCall.Ans ℕ) :=
  ⟨.putRecord (suiAddrKey pairDeployment.formats 1) (List.replicate 32 1),
    (.ok 3 : Except String RequestId)⟩

/-- The node 1 puts it. -/
def recordTurn : Turn ℕ := ⟨.tick, [pairRecord]⟩

/-- The node 0 looks it up. -/
def lookTurn : Turn ℕ :=
  ⟨.command (.getPeerSuiAddress 1) 0,
    [⟨.getRecord (suiAddrKey pairDeployment.formats 1), (7 : ℕ)⟩]⟩

/-- It is found. -/
def foundTurn : Turn ℕ :=
  ⟨.event (.behaviour (.kad (.outboundQueryProgressed 7
      (.getRecord (.ok (.foundRecord (List.replicate 32 1))))))),
    [⟨.reply 0 (.record (some (List.Vector.replicate 32 1))), ()⟩]⟩

def foundRecordNet : Parties.Network ℕ (Host ℕ) (Packet ℕ) :=
  afterTurn
    (afterTurn
      (afterTurn pairStart 1 recordTurn (NodeState.initial (pairDeployment.config 1))
        (fun _ _ => none) [.record 1 (suiAddrKey pairDeployment.formats 1) (List.replicate 32 1)])
      0 lookTurn ((NodeState.initial (pairDeployment.config 0)).insert .suiAddrQueries 7 0)
      (fun _ _ => none) [])
    0 foundTurn
    (((NodeState.initial (pairDeployment.config 0)).insert .suiAddrQueries 7 0).remove
      .suiAddrQueries 7) (fun _ _ => none) []

/-- Node 1 publishes its address, and node 0 finds it. -/
theorem reachable_foundRecordNet : pairDeployment.Reachable foundRecordNet := by
  refine reachable_afterTurn ?_ trivial (.record List.mem_cons_self List.mem_cons_self)
    (.call _ (.ret _)) rfl
  refine reachable_afterTurn ?_ trivial (.other rfl) (.call _ (.ret _)) rfl
  exact reachable_afterTurn reachable_pairStart trivial (.other rfl) (.call _ (.ret _)) rfl

/-- The ids of the two nodes are written without loss. -/
theorem peerIdToBytes_injective_pair :
    Function.Injective pairDeployment.formats.peerIdToBytes := fun n m h => by
  simpa [pairDeployment] using congrArg List.length h

/-- Node 0 gets the address of node 1, which is not under the key of its vault. -/
theorem record_genuine_pair :
    ((pairDeployment.config 1).suiAddress = some (List.Vector.replicate 32 1) ∨
      ∃ publisher, ¬ pairDeployment.honest publisher ∧
        .record publisher (suiAddrKey pairDeployment.formats 1) (List.replicate 32 1) ∈
          foundRecordNet.wire) ∧
      vaultKey pairDeployment.formats 1 ≠ suiAddrKey pairDeployment.formats 1 := by
  have hinput : lookTurn.input = .command (RecordKind.suiAddr.lookup 1) 0 := rfl
  have hmsg : (0, Message.record (some (List.Vector.replicate 32 1))) ∈
      sentIn (foundRecordNet.locals 0).run.turns := by decide
  have hgenuine := record_genuine peerIdToBytes_injective_pair reachable_foundRecordNet (by decide)
    (by decide) (List.mem_cons_self : lookTurn ∈ [lookTurn, foundTurn]) hinput hmsg
  refine ⟨hgenuine.1, fun hkeys => ?_⟩
  cases (hgenuine.2 .vault 1 hkeys).1

/-- The node 1 announces its blob. -/
def provideTurn : Turn ℕ :=
  ⟨.command (.announceBlob zeroBytes32) 0,
    [⟨.startProviding zeroBytes32.toList, (.ok 3 : Except String RequestId)⟩,
      ⟨.connectedPeers, ([0] : List ℕ)⟩]⟩

/-- The node 0 looks for providers of it. -/
def seekTurn : Turn ℕ :=
  ⟨.command (.findProviders zeroBytes32) 0, [⟨.getProviders zeroBytes32.toList, (7 : ℕ)⟩]⟩

/-- The node 1 is found. -/
def toldProviderTurn : Turn ℕ :=
  ⟨.event (.behaviour (.kad (.outboundQueryProgressed 7
      (.getProviders (.ok (.foundProviders [1])))))), [⟨.reply 0 (.peers [1]), ()⟩]⟩

def foundProviderNet : Parties.Network ℕ (Host ℕ) (Packet ℕ) :=
  afterTurn
    (afterTurn
      (afterTurn pairStart 1 provideTurn (NodeState.initial (pairDeployment.config 1))
        (fun _ _ => none) [.provider 1 1 zeroBytes32.toList])
      0 seekTurn ((NodeState.initial (pairDeployment.config 0)).insert .finds 7 0)
      (fun _ _ => none) [])
    0 toldProviderTurn
    (((NodeState.initial (pairDeployment.config 0)).insert .finds 7 0).remove .finds 7)
    (fun _ _ => none) []

/-- Node 1 announces a blob, and node 0 finds it. -/
theorem reachable_foundProviderNet : pairDeployment.Reachable foundProviderNet := by
  refine reachable_afterTurn ?_ trivial (.providers List.mem_cons_self ?_) (.call _ (.ret _)) rfl
  · refine reachable_afterTurn ?_ trivial (.other rfl) (.call _ (.ret _)) rfl
    exact reachable_afterTurn reachable_pairStart trivial (.other rfl) (.call _ (.call _ (.ret _)))
      rfl
  · rintro provider hprovider
    obtain rfl := List.mem_singleton.mp hprovider
    exact ⟨1, List.mem_cons_self⟩

/-- Node 1 is found, and has announced the blob. -/
theorem providers_genuine_pair :
    Provided (foundProviderNet.locals 1).run.turns zeroBytes32 ∨
      ∃ claimant, ¬ pairDeployment.honest claimant ∧
        .provider claimant 1 zeroBytes32.toList ∈ foundProviderNet.wire := by
  have hmsg : (0, Message.peers [1]) ∈ sentIn (foundProviderNet.locals 0).run.turns := by decide
  exact providers_genuine reachable_foundProviderNet (by decide) (by decide)
    (List.mem_cons_self : seekTurn ∈ [seekTurn, toldProviderTurn]) rfl hmsg List.mem_cons_self

end Pair

end ZingCdn
