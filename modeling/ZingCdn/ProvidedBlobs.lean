import ZingCdn.NetworkRecords

/-!
# Why a Blob Is Provided

A node starts to provide a blob because a command tells it to announce the blob, or because its
store lists the blob when a bootstrap peer is back. The loop announces in two more places, the
queue that a connection flushes and the one retry after a success, and both announce only what
has been announced before.

For the retry this rests on the swarm: it reports as provided only what the node itself has
started to provide (`OwnReports`).

## Main results

* `reason_of_made`: every announcement of a run has a reason.
* `Deployment.providers_warranted`: so has every provider that is found in the network.
-/

open Program Program.Prog

namespace ZingCdn

variable {PeerId : Type} [DecidableEq PeerId]

/-! ### Reasons -/

omit [DecidableEq PeerId] in
/-- The swarm reports as provided only what the node has started to provide. -/
def OwnReports (turns : List (Turn PeerId)) : Prop :=
  ∀ before turn after, turns = before ++ turn :: after → ∀ key, turn.input.provided? = some key →
    ∃ earlier ∈ before, .startProviding key ∈ made earlier.calls

/-- A reason to provide a blob: a command, or a listing of the store. -/
inductive Reason (formats : NodeFormats PeerId) (turns : List (Turn PeerId))
    (blobId : Bytes32) : Prop
  | commanded {turn : Turn PeerId} {reply : Channel} : turn ∈ turns →
      turn.input = .command (.announceBlob blobId) reply → Reason formats turns blobId
  | listed {turn : Turn PeerId} {ids : List String} {id : String} : turn ∈ turns →
      ⟨.listBlobIds, (.ok ids : Except String (List String))⟩ ∈ turn.calls → id ∈ ids →
      formats.parseBlobId id = .ok ⟨blobId⟩ → Reason formats turns blobId

section Reasons

variable {formats : NodeFormats PeerId} {config : NodeConfig PeerId}
  {turns turns' : List (Turn PeerId)} {turn : Turn PeerId} {s s' : NodeState PeerId}
  {blobId : Bytes32} {key : Bytes}

omit [DecidableEq PeerId] in
theorem Reason.mono (h : Reason formats turns blobId) (hsub : turns ⊆ turns') :
    Reason formats turns' blobId := by
  cases h with
  | commanded hturn hinput => exact .commanded (hsub hturn) hinput
  | listed hturn hcall hid hparse => exact .listed (hsub hturn) hcall hid hparse

omit [DecidableEq PeerId] in
/-- What is queued was announced by a command. -/
theorem reason_of_queued (h : blobId ∈ queuedAnnounces turns) : Reason formats turns blobId := by
  obtain ⟨turn, hturn, hoffline⟩ := List.mem_filterMap.mp h
  have hmem : turn ∈ turns := (List.rtakeWhile_suffix _ turns).subset hturn
  rw [announcedOffline.eq_def] at hoffline
  split at hoffline
  · rename_i blobId' reply hinput
    split at hoffline
    · obtain rfl := Option.some.inj hoffline
      exact .commanded hmem hinput
    · cases hoffline
  · cases hoffline

omit [DecidableEq PeerId] in
/-- A stored blob that a connection announces is in the listing. -/
theorem NodeState.Bootstrapped.listed_of_provided {bootstrapPeers : List PeerId} {peer : PeerId}
    {done done' : Bool} {boot : NodeCalls PeerId}
    (hboot : Bootstrapped formats bootstrapPeers peer done boot done')
    (hmade : .startProviding key ∈ made boot) :
    ∃ ids id blobId, ⟨.listBlobIds, (.ok ids : Except String (List String))⟩ ∈ boot ∧ id ∈ ids ∧
      formats.parseBlobId id = .ok ⟨blobId⟩ ∧ key = blobId.toList := by
  cases hboot with
  | other => cases hmade
  | first | unlisted => cases List.mem_singleton.mp hmade
  | @again ids calls hpeer hcalls =>
      have hannounced : .startProviding key ∈ announcements formats ids := by
        rcases List.mem_cons.mp hmade with hcall | hmem
        · cases hcall
        · exact hcalls ▸ hmem
      obtain ⟨id, hid, hcall⟩ := List.mem_filterMap.mp hannounced
      obtain ⟨blobId, hparse, hcall⟩ := Option.map_eq_some_iff.mp hcall
      refine ⟨ids, id, blobId.bytes, List.mem_cons_self, hid, ?_,
        (NodeCall.startProviding.inj hcall).symm⟩
      rcases hparsed : formats.parseBlobId id with e | parsed
      · rw [hparsed] at hparse
        cases hparse
      · rw [hparsed] at hparse
        rw [Option.some.inj hparse]

/-- A connection announces what is queued, and what the store lists. -/
theorem reason_of_connection (hrun : (s.handle formats config turn.input).Runs turn.calls (some s'))
    (hconn : turn.input.isConnection = true) (hqueue : s.pendingAnnounces = queuedAnnounces turns)
    (hmade : .startProviding key ∈ made turn.calls) :
    ∃ blobId : Bytes32, key = blobId.toList ∧ Reason formats (turns ++ [turn]) blobId := by
  obtain ⟨input, calls⟩ := turn
  obtain ⟨peer, endpoint, rfl⟩ : ∃ peer endpoint,
      input = .event (.connectionEstablished peer endpoint) := by
    rcases input with _ | ⟨_ | ⟨peer, endpoint⟩ | _⟩ | _
    case event.connectionEstablished => exact ⟨peer, endpoint, rfl⟩
    all_goals cases hconn
  obtain ⟨_, -, records, boot, queued, rfl, hconnects⟩ :=
    (NodeState.meets_handleConnectionEstablished peer endpoint).ends hrun fun _ _ => trivial
  rw [made_append, made_append, List.mem_append, List.mem_append] at hmade
  rcases hmade with (hrecords | hboot) | hqueued
  · obtain ⟨ev, hev, hcall⟩ := List.mem_map.mp hrecords
    have hrecord := hconnects.records ev hev
    rw [hcall] at hrecord
    exact hrecord.elim
  · obtain ⟨ids, id, blobId, hlisted, hid, hparse, rfl⟩ := hconnects.boot.listed_of_provided hboot
    have hcall : ⟨.listBlobIds, (.ok ids : Except String (List String))⟩ ∈ records ++ boot ++ queued :=
      List.mem_append_left _ (List.mem_append_right _ hlisted)
    exact ⟨blobId, rfl, .listed (List.mem_append_right _ List.mem_cons_self) hcall hid hparse⟩
  · rw [hconnects.queued, hqueue] at hqueued
    obtain ⟨blobId, hblobId, hcall⟩ := List.mem_map.mp hqueued
    exact ⟨blobId, (NodeCall.startProviding.inj hcall).symm,
      (reason_of_queued hblobId).mono (List.subset_append_left _ _)⟩

/-- **Why a blob is provided**: every announcement of a run has a reason by then. -/
theorem reason_of_made {run : NodeRun PeerId} (hrun : ReachableNode formats config run)
    (hown : OwnReports run.turns) {before after : List (Turn PeerId)}
    (hturns : run.turns = before ++ turn :: after) (hmade : .startProviding key ∈ made turn.calls) :
    ∃ blobId : Bytes32, key = blobId.toList ∧ Reason formats (before ++ [turn]) blobId := by
  -- on the turns before: a retry follows an announcement that is earlier
  induction hlen : before.length using Nat.strong_induction_on generalizing before turn after with
  | _ n ih =>
    obtain ⟨s, s', hbefore, hhandle⟩ := hrun.split hturns
    obtain ⟨ev, hev, hcall⟩ := List.mem_map.mp hmade
    have hadmits := (NodeState.within_handle turn.input).of_runs hhandle ev hev
    rw [hcall] at hadmits
    rcases hadmits with ⟨blobId, reply, hinput, rfl⟩ | hconn | hprovided
    · exact ⟨blobId, rfl, .commanded (List.mem_append_right _ List.mem_cons_self) hinput⟩
    · exact reason_of_connection hhandle hconn (settled_of_reachable hbefore).queue hmade
    · obtain ⟨earlier, hearlier, hmade'⟩ := hown before turn after hturns key hprovided
      obtain ⟨first, rest, rfl⟩ := List.append_of_mem hearlier
      have hsplit : run.turns = first ++ earlier :: (rest ++ turn :: after) := by
        rw [hturns, List.append_assoc, List.cons_append]
      have hshort : first.length < n := by
        rw [← hlen, List.length_append, List.length_cons]
        omega
      obtain ⟨blobId, rfl, hreason⟩ := ih first.length hshort hsplit hmade' rfl
      exact ⟨blobId, rfl, hreason.mono (by simp)⟩

end Reasons

/-! ### Providers in the network -/

namespace Deployment

variable {dep : Deployment PeerId} {net : Parties.Network PeerId (Host PeerId) (Packet PeerId)}

/-- What a node lists is what its store has been. -/
def ListsStore (host : Host PeerId) : Prop :=
  ∀ turn ∈ host.run.turns, ∀ ids : List String,
    ⟨.listBlobIds, (.ok ids : Except String (List String))⟩ ∈ turn.calls →
      ∃ db ∈ host.stores, ids = db.listBlobIds

/-- **Every provider that is found has a reason**: a command told it to announce the blob, or the
blob has been in its store, or somebody who does not run this program named it. -/
theorem providers_warranted (hnet : dep.Reachable net) {n : PeerId}
    (hids : (issuedIn (net.locals n).run.turns).Nodup)
    (hchannels : (channelsIn (net.locals n).run.turns).Nodup) {turn : Turn PeerId}
    (hturn : turn ∈ (net.locals n).run.turns) {blobId : Bytes32} {reply : Channel}
    (hinput : turn.input = .command (.findProviders blobId) reply) {providers : List PeerId}
    (hmsg : (reply, .peers providers) ∈ sentIn (net.locals n).run.turns) {m : PeerId}
    (hm : m ∈ providers) (hown : OwnReports (net.locals m).run.turns)
    (hlists : ListsStore (net.locals m)) :
    (∃ t ∈ (net.locals m).run.turns, ∃ reply', t.input = .command (.announceBlob blobId) reply') ∨
      (∃ db ∈ (net.locals m).stores, StoredBlob dep.formats db blobId) ∨
        ∃ claimant, ¬ dep.honest claimant ∧ .provider claimant m blobId.toList ∈ net.wire := by
  obtain ⟨claimant, hpacket⟩ := provider_claimed hnet hids hchannels hturn hinput hmsg hm
  rcases provided_of_claimed hnet hpacket with ⟨announcing, hannouncing, hmade⟩ | hforged
  · obtain ⟨before, after, hsplit⟩ := List.append_of_mem hannouncing
    obtain ⟨blobId', hkey, hreason⟩ :=
      reason_of_made (run_of_reachable hnet m) hown hsplit hmade
    obtain rfl := List.Vector.eq _ _ hkey
    have hpast : before ++ [announcing] ⊆ (net.locals m).run.turns := by
      rw [hsplit]
      simp
    cases hreason.mono hpast with
    | commanded ht hcommand => exact .inl ⟨_, ht, _, hcommand⟩
    | listed ht hlisted hid hparse =>
        obtain ⟨db, hdb, rfl⟩ := hlists _ ht _ hlisted
        exact .inr (.inl ⟨db, hdb, _, hid, hparse⟩)
  · exact .inr (.inr ⟨claimant, hforged, hpacket⟩)

/-- The node 1 is found: a command told it to announce the blob, or its store has had it. -/
theorem providers_warranted_pair :
    (∃ t ∈ (foundProviderNet.locals 1).run.turns, ∃ reply,
        t.input = .command (.announceBlob zeroBytes32) reply) ∨
      ∃ db ∈ (foundProviderNet.locals 1).stores,
        StoredBlob pairDeployment.formats db zeroBytes32 := by
  have hturns : (foundProviderNet.locals 1).run.turns = [provideTurn] := rfl
  have hmsg : (0, Message.peers [1]) ∈ sentIn (foundProviderNet.locals 0).run.turns := by decide
  have hown : OwnReports (foundProviderNet.locals 1).run.turns := by
    intro before turn after hsplit key hprovided
    have hturn : turn ∈ [provideTurn] := by
      rw [← hturns, hsplit]
      exact List.mem_append_right _ List.mem_cons_self
    obtain rfl := List.mem_singleton.mp hturn
    cases hprovided
  have hlists : ListsStore (foundProviderNet.locals 1) := by
    intro turn hturn ids hlisted
    rw [hturns, List.mem_singleton] at hturn
    subst hturn
    have hcall : .listBlobIds ∈ made provideTurn.calls := List.mem_map_of_mem hlisted
    simp [made, provideTurn] at hcall
  rcases providers_warranted reachable_foundProviderNet (by decide) (by decide)
    (List.mem_cons_self : seekTurn ∈ [seekTurn, toldProviderTurn]) rfl hmsg List.mem_cons_self
    hown hlists with hcommand | hstored | ⟨claimant, hforged, -⟩
  · exact .inl hcommand
  · exact .inr hstored
  · exact absurd trivial hforged

end Deployment

end ZingCdn
