import ZingCdn.BootstrapAddrs
import ZingCdn.Library.JsonStrings
import ZingCdn.Library.Saving

/-!
# The Bootstrap Peers across Restarts

The desktop application keeps its bootstrap peers in a list behind a lock, and in the file
`peers.json` for the next start. A request to add or to remove a peer updates the list, then
reads it and writes it to the file, which no lock guards. Requests are served at once, so two
saves can overlap: the later one to write may be the earlier one to have read, and the end of a
longer list may stay behind a shorter one.

The file is read by `serde_json`, which takes no text with anything behind it, and a file that
is no list is read as an empty one. So a start finds no list that the application has not had,
but it may find an older one, or none. A write is one step here, and one that fails leaves the
file as it finds it.

## Main results

* `mem_foldl_apply_iff`: which peers are in the list.
* `saved_peers`: what the next start finds.
-/

open Program Program.Prog Saving

namespace ZingCdn

variable {PeerId : Type}

/-! ### The list -/

/-- The update of a request under the lock. -/
inductive PeerUpdate
  | add (addr : String)
  | remove (addr : String)
deriving DecidableEq

namespace PeerUpdate

/-- The address of an update. -/
def addr : PeerUpdate → String
  | .add addr | .remove addr => addr

/-- Push the address unless it is there, or retain all others. -/
def apply (peers : List String) : PeerUpdate → List String
  | .add addr => if addr ∈ peers then peers else peers ++ [addr]
  | .remove addr => peers.filter (· ≠ addr)

end PeerUpdate

/-- The last update for an address decides whether it is in the list. -/
def lastUpdate (addr : String) (updates : List PeerUpdate) : Option PeerUpdate :=
  updates.reverse.find? (·.addr = addr)

/-! ### The application -/

/-- The requests that change the list. -/
inductive PeersRequest
  | add (addr : String)
  | remove (addr : String)
deriving DecidableEq

/-- The answers to a request of the application: those of the node, and those of the list and the
file. -/
abbrev PeersAns (PeerId : Type) := SavingAns (@Effect.Ans PeerId) (List String) PeerUpdate UInt8

namespace Gui

section Requests

variable [DecidableEq PeerId] (lib : MultiaddrLib PeerId) (format : Format (List String) UInt8)

/-- `DEFAULT_BOOTSTRAP` -/
def defaultBootstrap : List String := []

/-- `load_peers` -/
def loadPeers (file : Option Bytes) : List String := format.load [] file

/-- `save_peers`. A list of texts always has a JSON text. -/
def savePeers (peers : List String) : Prog (PeersAns PeerId) Unit := writeFile (format.text peers)

/-- The list at the start. -/
def startPeers (file : Option Bytes) : List String :=
  defaultBootstrap.foldl (fun peers bp => PeerUpdate.apply peers (.add bp)) (loadPeers format file)

/-- `peers_add` up to its lock. What it does there does not depend on the list. -/
def requestPeer (addrStr : String) : Action PeerId (Except String Unit) := do
  let out ← Gui.peersAdd lib [] addrStr
  pure out.1

/-- `peers_remove` up to its lock. -/
def disconnectPeer (addrStr : String) : Action PeerId Unit :=
  match lib.fromStr addrStr with
  | none => pure ()
  | some addr =>
      match firstP2p addr with
      | none => pure ()
      | some peerId => do
          let _ ← sendCmd (.disconnect peerId)
          pure ()

/-- The update, and then the list read again and saved. -/
def updateAndSave (u : PeerUpdate) : Prog (PeersAns PeerId) Unit := do
  let _ : Unit ← Saving.perform (.update u)
  let peers : List String ← Saving.perform .read
  savePeers format peers

/-- `handle_peers_add` -/
def handlePeersAdd (addrStr : String) : Prog (PeersAns PeerId) (Except String Unit) := do
  let added ← alone (requestPeer lib addrStr)
  match added with
  | .ok () => do
      updateAndSave format (.add addrStr)
      pure (.ok ())
  | .error e => pure (.error e)

/-- `handle_peers_remove` -/
def handlePeersRemove (addrStr : String) : Prog (PeersAns PeerId) (Except String Unit) := do
  alone (disconnectPeer lib addrStr)
  updateAndSave format (.remove addrStr)
  pure (.ok ())

/-- The request is served. -/
def handlePeers : PeersRequest → Prog (PeersAns PeerId) (Except String Unit)
  | .add addrStr => handlePeersAdd lib format addrStr
  | .remove addrStr => handlePeersRemove lib format addrStr

end Requests

end Gui

/-- The requests of a run of the application, and what they share. -/
abbrev PeersPool (PeerId : Type) :=
  Pool (PeersAns PeerId) (Shared (List String) PeerUpdate UInt8) PeersRequest (Except String Unit)

section Runs

variable [DecidableEq PeerId] (lib : MultiaddrLib PeerId) (format : Format (List String) UInt8)
  (file₀ : Option Bytes)

/-- The application started on a file. -/
def PeersPool.Initial (pool : PeersPool PeerId) : Prop :=
  pool.shared = ⟨Gui.startPeers format file₀, [], file₀⟩ ∧ pool.tasks = []

/-- The states of the application, started on a file. -/
def PeersPool.Reachable : PeersPool PeerId → Prop :=
  Transition.Reachable (PeersPool.Initial format file₀)
    (Pool.Step (Performs PeerUpdate.apply) (Gui.handlePeers lib format))

/-- The states of the application when no two saves overlap and none fails. -/
def PeersPool.OrderlyReachable : PeersPool PeerId → Prop :=
  Transition.Reachable (PeersPool.Initial format file₀)
    (OrderlyStep PeerUpdate.apply (Gui.handlePeers lib format))

end Runs

/-! ### Which peers are in the list -/

section List

variable {peers : List String} {a : String} {u : PeerUpdate} {updates : List PeerUpdate}

/-- Who is in the list after an update. -/
theorem mem_apply_iff : a ∈ u.apply peers ↔ u = .add a ∨ a ∈ peers ∧ u ≠ .remove a := by
  cases u with
  | add addr =>
      rw [PeerUpdate.apply]
      by_cases h : addr ∈ peers
      · rw [if_pos h]
        constructor
        · exact fun ha => .inr ⟨ha, nofun⟩
        · rintro (heq | ⟨ha, -⟩)
          · obtain rfl := PeerUpdate.add.inj heq
            exact h
          · exact ha
      · rw [if_neg h, List.mem_append, List.mem_singleton]
        constructor
        · rintro (ha | rfl)
          · exact .inr ⟨ha, nofun⟩
          · exact .inl rfl
        · rintro (heq | ⟨ha, -⟩)
          · exact .inr (PeerUpdate.add.inj heq).symm
          · exact .inl ha
  | remove addr =>
      rw [PeerUpdate.apply, List.mem_filter]
      constructor
      · rintro ⟨ha, hne⟩
        exact .inr ⟨ha, fun heq => (of_decide_eq_true hne) (PeerUpdate.remove.inj heq).symm⟩
      · rintro (heq | ⟨ha, hne⟩)
        · cases heq
        · exact ⟨ha, decide_eq_true fun heq => hne (congrArg _ heq.symm)⟩

/-- An update adds nobody twice. -/
theorem nodup_apply (h : peers.Nodup) (u : PeerUpdate) : (u.apply peers).Nodup := by
  cases u with
  | add addr =>
      rw [PeerUpdate.apply]
      split
      · exact h
      · next hnot => simpa using h.concat hnot
  | remove addr => exact h.filter _

/-- Nor do many. -/
theorem nodup_foldl_apply (h : peers.Nodup) (updates : List PeerUpdate) :
    (updates.foldl PeerUpdate.apply peers).Nodup := by
  induction updates generalizing peers with
  | nil => exact h
  | cons u updates ih => exact ih (nodup_apply h u)

/-- A later update for the same address counts, and no other. -/
theorem lastUpdate_concat : lastUpdate a (updates ++ [u]) =
    if u.addr = a then some u else lastUpdate a updates := by
  rw [lastUpdate, List.reverse_append, List.reverse_singleton, List.singleton_append,
    List.find?_cons]
  by_cases h : u.addr = a <;> simp [h, lastUpdate]

/-- **Which peers are in the list**: those whose last update added them, and those of the start
that no update was for. -/
theorem mem_foldl_apply_iff : a ∈ updates.foldl PeerUpdate.apply peers ↔
    lastUpdate a updates = some (.add a) ∨ lastUpdate a updates = none ∧ a ∈ peers := by
  induction updates using List.reverseRecOn with
  | nil => simp [lastUpdate]
  | append_singleton updates u ih =>
      rw [List.foldl_append, List.foldl_cons, List.foldl_nil, mem_apply_iff, ih, lastUpdate_concat]
      cases u with
      | add addr =>
          by_cases h : addr = a
          · simp [PeerUpdate.addr, h]
          · simp [PeerUpdate.addr, h]
      | remove addr =>
          by_cases h : addr = a
          · simp [PeerUpdate.addr, h]
          · simp [PeerUpdate.addr, h]

end List

/-! ### The requests save what they update -/

section Requests

variable {lib : MultiaddrLib PeerId} {format : Format (List String) UInt8}
  {addrStr : String}

/-- An address that is added names a peer, as the start needs it. -/
def PeerUpdate.Splits (lib : MultiaddrLib PeerId) (u : PeerUpdate) : Prop :=
  ∀ addr, u = .add addr → ∃ input pair, lib.fromStr addr = some input ∧ splitPeer input = some pair

variable (lib addrStr) in
/-- Up to its lock a request dials the split of its address, if any. -/
abbrev requesting : Contract (@Effect.Ans PeerId) :=
  dialing fun peer a => ∃ input addr, lib.fromStr addrStr = some input ∧
    splitPeer input = some (peer, addr) ∧ a = lib.ofComponents addr

/-- A disconnect dials nobody. -/
theorem meets_disconnectPeer (h : Trace PeerId) :
    Meets (requesting lib addrStr) h (Gui.disconnectPeer lib addrStr) fun _ _ => True := by
  rw [Gui.disconnectPeer]
  cases lib.fromStr addrStr with
  | none => trivial
  | some input =>
      dsimp only
      cases firstP2p input with
      | none => trivial
      | some peer => exact ⟨by rintro _ _ ⟨⟩, fun _ _ => trivial⟩

/-- An update that is saved. -/
theorem saves_updateAndSave {h : History (PeersAns PeerId)} {u : PeerUpdate}
    (hidle : Saving.phase h = .idle) (hu : u.Splits lib) :
    Saves format (PeerUpdate.Splits lib) h (Gui.updateAndSave format u) := by
  have hupdate : Saving.InOrder format (PeerUpdate.Splits lib) (Saving.phase h)
      (.inr (.update u) : Effect PeerId ⊕ _) := by
    rw [hidle]
    exact hu
  refine ⟨hupdate, fun (_ : Unit) _ => ?_⟩
  have hdirty : Saving.phase (h ++ [⟨.inr (.update u), ()⟩]) = .dirty := by
    rw [Saving.phase_concat, hidle]
    rfl
  have hread : Saving.InOrder format (PeerUpdate.Splits lib)
      (Saving.phase (h ++ [⟨.inr (.update u), ()⟩])) (.inr .read : Effect PeerId ⊕ _) := by
    rw [hdirty]
    trivial
  refine ⟨hread, fun (peers : List String) _ => saves_writeFile ?_⟩
  exact (Saving.phase_concat _ _).trans (congrArg (Saving.Phase.next · _ _) hdirty)

variable [DecidableEq PeerId]

/-- `peers_add` is what it does up to its lock, and the update there. -/
theorem peersAdd_eq (bootstrapPeers : List String) :
    Gui.peersAdd lib bootstrapPeers addrStr = (do
      let r ← Gui.requestPeer lib addrStr
      pure (r, match r with
        | .ok () => (PeerUpdate.add addrStr).apply bootstrapPeers
        | .error _ => bootstrapPeers)) := by
  rw [Gui.requestPeer, Gui.peersAdd, peersAdd, peersAdd]
  cases lib.fromStr addrStr with
  | none => rfl
  | some input =>
      dsimp only
      cases firstP2p input with
      | none => rfl
      | some peer =>
          dsimp only
          simp only [bind_assoc]
          refine bind_congr fun sent => ?_
          cases sent with
          | false => rfl
          | true =>
              simp only [if_true, bind_assoc]
              refine bind_congr fun sent => ?_
              cases sent with
              | false => rfl
              | true => simp only [if_true, bind_assoc, pure_bind, PeerUpdate.apply]

/-- A request that ends well was for an address that can be split. -/
theorem meets_requestPeer (h : Trace PeerId) :
    Meets (requesting lib addrStr) h (Gui.requestPeer lib addrStr) fun _ r =>
      r = .ok () → PeerUpdate.Splits lib (.add addrStr) := by
  cases hinput : lib.fromStr addrStr with
  | none =>
      rw [Gui.requestPeer, Gui.peersAdd, peersAdd, hinput]
      rintro ⟨⟩
  | some input =>
      cases hpeer : firstP2p input with
      | none =>
          rw [Gui.requestPeer, Gui.peersAdd, peersAdd_of_none hinput hpeer]
          rintro ⟨⟩
      | some peer =>
          have hsplits : PeerUpdate.Splits lib (.add addrStr) := by
            rintro addr heq
            obtain rfl := PeerUpdate.add.inj heq
            exact ⟨input, _, hinput, by rw [splitPeer, hpeer]; rfl⟩
          exact (meets_peersAdd []).bind fun _ _ _ _ _ => hsplits

/-- **Every request saves what it updates.** -/
theorem saves_handlePeers (request : PeersRequest) :
    Saves format (PeerUpdate.Splits lib) [] (Gui.handlePeers lib format request) := by
  cases request with
  | add addrStr =>
      refine (meets_alone (meets_requestPeer []) (fun _ _ _ => trivial) id []).bind ?_
      rintro h added - ⟨hphase, hsplits⟩
      cases added with
      | error e =>
          show (Saving.phase h).Settled
          rw [hphase]
          exact ⟨nofun, rfl⟩
      | ok added =>
          exact (saves_updateAndSave hphase (hsplits rfl)).bind fun _ _ _ hsettled => hsettled
  | remove addrStr =>
      refine (meets_alone (meets_disconnectPeer []) (fun _ _ _ => trivial) id []).bind ?_
      rintro h (_ : Unit) - ⟨hphase, -⟩
      exact (saves_updateAndSave hphase (by rintro _ ⟨⟩)).bind fun _ _ _ hsettled => hsettled

end Requests

/-! ### The next start -/

section Runs

variable {lib : MultiaddrLib PeerId} {format : Format (List String) UInt8}
  {file₀ : Option Bytes} {pool : PeersPool PeerId}

/-- What has been added can be split. -/
theorem split_of_mem {updates : List PeerUpdate} {peers : List String} {a : String}
    (hupdates : ∀ u ∈ updates, PeerUpdate.Splits lib u)
    (ha : a ∈ updates.foldl PeerUpdate.apply peers) :
    a ∈ peers ∨ ∃ input pair, lib.fromStr a = some input ∧ splitPeer input = some pair := by
  rcases mem_foldl_apply_iff.mp ha with hadd | ⟨-, ha⟩
  · refine .inr (hupdates (.add a) ?_ a rfl)
    exact List.mem_reverse.mp (List.mem_of_find?_eq_some hadd)
  · exact .inl ha

variable [DecidableEq PeerId]

/-- **The file and the list** are sound in every run. -/
theorem PeersPool.Reachable.sound (hformat : format.Delimited)
    (h : PeersPool.Reachable lib format file₀ pool) :
    Sound format PeerUpdate.apply (PeerUpdate.Splits lib) (Gui.startPeers format file₀) file₀
      (savers pool) :=
  sound_of_reachable hformat (reachable_savers saves_handlePeers h)

/-- **What the next start finds.** In every run, whatever requests are served at once, the list
holds the addresses whose last update added them, and those of the start that no update was for,
each once when the start had each once. A start then finds the file as it was, no list, or the
list after a first part of the updates. Every peer that was added and that it finds is among its
bootstrap peers, and the node dials it. When no two saves overlap and none fails, the start finds
the list as it is, once all requests are served. -/
theorem saved_peers (hformat : format.Delimited) (file₀ : Option Bytes) :
    (∀ pool : PeersPool PeerId, PeersPool.Reachable lib format file₀ pool →
      (∀ a, a ∈ pool.shared.value ↔ lastUpdate a pool.shared.updates = some (.add a) ∨
        lastUpdate a pool.shared.updates = none ∧ a ∈ Gui.startPeers format file₀) ∧
      ((Gui.startPeers format file₀).Nodup → pool.shared.value.Nodup) ∧
      (pool.shared.file = file₀ ∨ Gui.startPeers format pool.shared.file = [] ∨
        ∃ updates, updates <+: pool.shared.updates ∧ Gui.startPeers format pool.shared.file
          = updates.foldl PeerUpdate.apply (Gui.startPeers format file₀)) ∧
      ∀ a ∈ Gui.startPeers format pool.shared.file, a ∈ Gui.startPeers format file₀ ∨
        ∃ input pair, lib.fromStr a = some input ∧ splitPeer input = some pair ∧
          pair ∈ Gui.parseBootstrapPeers lib (Gui.startPeers format pool.shared.file) ∧
          ∀ (formats : NodeFormats PeerId) (config : NodeConfig PeerId) calls s,
            config.bootstrapAddrs = (Gui.parseBootstrapPeers lib
              (Gui.startPeers format pool.shared.file)).map (Prod.map id lib.ofComponents) →
            (startup formats config).Runs calls (some (.ok s)) →
              .dial (formats.pushP2p (lib.ofComponents pair.2) pair.1) ∈ made calls) ∧
    ∀ pool : PeersPool PeerId, PeersPool.OrderlyReachable lib format file₀ pool →
      (∀ task ∈ pool.tasks, ∃ r, task.rest = .ret r) →
        Gui.startPeers format pool.shared.file = pool.shared.value := by
  constructor
  · intro pool hreach
    have hsound := hreach.sound hformat
    have hfound : pool.shared.file = file₀ ∨ Gui.startPeers format pool.shared.file = [] ∨
        Saving.Held PeerUpdate.apply (Gui.startPeers format file₀) pool.shared.updates
          (Gui.startPeers format pool.shared.file) :=
      file_of_reachable hformat (reachable_savers saves_handlePeers hreach) []
    have hvalue : pool.shared.value
        = pool.shared.updates.foldl PeerUpdate.apply (Gui.startPeers format file₀) := hsound.value
    refine ⟨fun a => ?_, fun hnodup => ?_, hfound, fun a ha => ?_⟩
    · rw [hvalue]
      exact mem_foldl_apply_iff
    · rw [hvalue]
      exact nodup_foldl_apply hnodup _
    · have hsplit : a ∈ Gui.startPeers format file₀ ∨
          ∃ input pair, lib.fromStr a = some input ∧ splitPeer input = some pair := by
        rcases hfound with hfile | hnone | ⟨updates, hpre, hlist⟩
        · exact .inl (hfile ▸ ha)
        · rw [hnone] at ha
          cases ha
        · rw [hlist] at ha
          exact split_of_mem (fun u hu => hsound.updates u (hpre.subset hu)) ha
      refine hsplit.imp_right ?_
      rintro ⟨input, pair, hinput, hpair⟩
      have hmem : pair ∈
          Gui.parseBootstrapPeers lib (Gui.startPeers format pool.shared.file) := by
        rw [Gui.parseBootstrapPeers_eq, Cli.mem_parseBootstrapPeers_iff]
        exact ⟨a, ha, input, hinput, hpair⟩
      refine ⟨input, pair, hinput, hpair, hmem, fun formats config calls s hconfig hrun => ?_⟩
      rw [startup_dials_iff hrun, hconfig]
      exact ⟨_, List.mem_map_of_mem hmem, rfl⟩
  · intro pool hreach hret
    obtain ⟨horderly, hsettled⟩ := orderly_savers saves_handlePeers hreach
    exact file_of_orderly hformat rfl horderly (hsettled hret)

end Runs

/-! ### A peer is added -/

section Added

/-- `serde_json` on lists of texts. -/
noncomputable def jsonFormat : Format (List String) UInt8 where
  text peers := JsonStrings.arrayText (peers.map fun s => s.toUTF8.toList)
  value text := (JsonStrings.readArray text).bind fun l =>
    l.mapM (Function.partialInv fun s : String => s.toUTF8.toList)
  close := JsonStrings.closeByte

/-- Texts are read back from their bytes. -/
theorem mapM_partialInv (peers : List String) :
    (peers.map fun s => s.toUTF8.toList).mapM
      (Function.partialInv fun s : String => s.toUTF8.toList) = some peers := by
  induction peers with
  | nil => rfl
  | cons s peers ih =>
      rw [List.map_cons, List.mapM_cons, Function.partialInv_left toUTF8_toList_injective, ih]
      rfl

/-- A list in JSON is no list with anything behind it. -/
theorem jsonFormat_delimited : jsonFormat.Delimited where
  value_text peers := by
    have hread := JsonStrings.readArray_append (peers.map fun s => s.toUTF8.toList) []
    rw [List.append_nil, if_pos rfl] at hread
    show (JsonStrings.readArray _).bind _ = _
    rw [jsonFormat, hread, Option.bind_some, mapM_partialInv]
  value_nil := rfl
  getLast?_text peers := JsonStrings.getLast?_arrayText _
  value_append peers rest hrest := by
    have hne : rest ≠ [] := by
      rintro rfl
      cases hrest
    show (JsonStrings.readArray _).bind _ = _
    rw [jsonFormat, JsonStrings.readArray_append, if_neg hne, Option.bind_none]

/-- What a request to add the peer 1 does: the peer is not connected yet. -/
noncomputable def addedHistory : History (PeersAns ℕ) :=
  [⟨.inl (.send (.addBootstrapPeer 1 (componentsText directAddr.dropLast))), true⟩,
    ⟨.inl (.send (.dial 1 (componentsText directAddr.dropLast))), true⟩,
    ⟨.inl (.sleep 300), ()⟩, ⟨.inl (.send .getConnectedPeers), false⟩,
    ⟨.inl (.send .bootstrap), true⟩, ⟨.inr (.update (.add directText)), ()⟩,
    ⟨.inr .read, [directText]⟩, ⟨.inr .truncate, true⟩,
    ⟨.inr (.write (jsonFormat.text [directText])), true⟩]

/-- The history is that of a request to add the peer. -/
theorem addedHistory_runs : (Gui.handlePeers relayLib jsonFormat (.add directText)).Runs
    addedHistory (some (.ok ())) := by
  rw [addedHistory]
  iterate 9 refine .call _ ?_
  exact .ret _

/-- The list and the file answer it. -/
theorem addedHistory_fits : Fits PeerUpdate.apply ⟨[], [], none⟩ addedHistory := by
  rw [addedHistory]
  refine ⟨trivial, trivial, trivial, trivial, trivial, trivial, ?_, trivial, trivial, trivial⟩
  exact rfl

/-- An application without a file, once it has added the peer 1, dials it at its next start. -/
theorem saved_peers_added : ∃ pool : PeersPool ℕ,
    PeersPool.Reachable relayLib jsonFormat none pool ∧ pool.shared.updates = [.add directText] ∧
      Gui.startPeers jsonFormat pool.shared.file = [directText] ∧
      (1, directAddr.dropLast) ∈
        Gui.parseBootstrapPeers relayLib (Gui.startPeers jsonFormat pool.shared.file) := by
  have horderly : PeersPool.OrderlyReachable relayLib jsonFormat none _ :=
    orderly_alone addedHistory_runs addedHistory_fits nofun
  have hreach : PeersPool.Reachable relayLib jsonFormat none _ :=
    horderly.mono fun _ _ hstep => hstep.1
  obtain ⟨hall, hquiet⟩ := @saved_peers ℕ relayLib jsonFormat _ jsonFormat_delimited none
  have hfound := hquiet _ horderly fun task htask => by
    obtain rfl := List.mem_singleton.mp htask
    exact ⟨_, rfl⟩
  refine ⟨_, hreach, rfl, hfound, ?_⟩
  obtain hold | ⟨input, pair, hinput, hpair, hmem, -⟩ :=
    (hall _ hreach).2.2.2 directText (by rw [hfound]; exact List.mem_singleton_self _)
  · cases hold
  · obtain rfl := Option.some.inj hinput
    obtain rfl := Option.some.inj hpair
    exact hmem

end Added

end ZingCdn
