import ZingCdn.HttpApi
import ZingCdn.VaultClient

/-!
# The Listing of All Peers

`list_all_peers` joins the registry of the staking contract with that of the vaults. It lists
the staking table, reads the peer objects in one batch, keeps what parses, and attaches to each
peer the vault whose key is the peer's address, up to prefix and case. Entries that do not
arrive, objects that are not read and peers whose id is not one of libp2p are left out without
an error.

Two requests show it: `handle_staking` every peer, and `handle_my_peer` the one with the
wallet's address. Both ask the node which peers it is connected to.

## Main results

* `mem_listAllPeers_iff`: which rows there are.
* `listed_peers`: every row is a registered peer with its own vault, and the wallet is shown as
  registered exactly when it is and its peer is read.
-/

namespace ZingCdn

variable {PeerId : Type}

/-! ### The listing -/

/-- A peer as listed. -/
structure PeerInfo where
  suiAddress : String
  peerIdB58 : String
  bond : ℕ
  isActive : Bool
  peerObjectId : String
  vault : Option PeerVaultInfo
deriving DecidableEq

/-- The outcome of every remote step of listing the peers: the client, the stream of table
entries, the batch read of the peer objects, and the listing of the vaults. -/
structure PeersListing where
  client : Except String Unit
  fields : List (Except String DynamicField)
  objects : Except String (List ObjectResult)
  vaults : VaultListing

/-- The functions that read a peer id: base64, and `PeerId::from_bytes`. -/
structure PeerIdFormats (PeerId : Type) where
  base64Decode : String → Except String Bytes
  fromBytes : Bytes → Option PeerId

/-- `parse_peer_json`. -/
def parsePeerJson (lib : Externals PeerId) (formats : PeerIdFormats PeerId)
    (json : Option JsonKind) (objId : String) : Option PeerInfo :=
  match json with
  | some (.structValue fields) => do
      let peerIdB64 ← stringField fields "peer_id"
      let peerIdBytes ← (formats.base64Decode peerIdB64).toOption
      let peerId ← formats.fromBytes peerIdBytes
      let suiAddress ← stringField fields "sui_address"
      let bond ← (stringField fields "bond").bind parseU64
      let isActive ← boolField fields "is_active"
      some
        { suiAddress
          peerIdB58 := lib.peerIdToString peerId
          bond
          isActive
          peerObjectId := objId
          vault := none }
  | _ => none

/-- The object ids of the table entries; failed stream items are skipped. -/
def peerObjectIds (items : List (Except String DynamicField)) : List String :=
  items.filterMap fun
    | .ok df => df.vaultId
    | .error _ => none

/-- The peer in an object read. -/
def readPeer (lib : Externals PeerId) (formats : PeerIdFormats PeerId) (objId : String) :
    ObjectResult → Option PeerInfo
  | .object (some json) => parsePeerJson lib formats json objId
  | _ => none

/-- A peer with the vault of its address. -/
def attachVault (visited : List (String × PeerVaultInfo)) (peer : PeerInfo) : PeerInfo :=
  { peer with vault := vaultOfAddress visited peer.suiAddress }

/-- `list_all_peers`. -/
def ZingWallet.listAllPeers (self : ZingWallet) (lib : Externals PeerId)
    (formats : PeerIdFormats PeerId) (o : PeersListing)
    (order : IterationOrder (String × PeerVaultInfo)) : ZingResult (List PeerInfo) :=
  match self.settlement with
  | none => .ok []
  | some _ =>
      match o.client with
      | .error e => .error (.suiClient ("rpc: " ++ e))
      | .ok () =>
          if (peerObjectIds o.fields).isEmpty then .ok []
          else
            match o.objects with
            | .error e => .error (.suiClient ("batch_get_objects: " ++ e))
            | .ok results =>
                let peers := ((peerObjectIds o.fields).zip results).filterMap fun (objId, r) =>
                  readPeer lib formats objId r
                .ok (peers.map (attachVault (order.visit (self.seenVaults o.vaults))))

/-! ### The two requests -/

/-- The text of a peer id, cut in the middle when it is long. It is one of base58, so its
characters are its bytes. -/
def peerIdShort (peerIdB58 : String) : String :=
  if 16 < peerIdB58.length then
    String.ofList (peerIdB58.toList.take 8) ++ "..."
      ++ String.ofList (peerIdB58.toList.drop (peerIdB58.length - 8))
  else peerIdB58

/-- A row of `handle_staking`. -/
structure StakingPeerInfo where
  suiAddress : String
  peerIdShort : String
  peerObjectId : String
  bond : ℕ
  isActive : Bool
  isLive : Bool
  vaultReserves : Option ℕ
  vaultTotalShares : Option ℕ
  vaultCommissionBps : Option ℕ
  vaultPeerEarnings : Option ℕ
  vaultObjectId : Option String
deriving DecidableEq

/-- The answer of `handle_my_peer`. -/
structure MyPeerInfo where
  walletAddress : String
  peerObjectId : String
  peerIdShort : Option String
  bond : Option ℕ
  isActive : Option Bool
  isLive : Option Bool
  isRegistered : Bool
deriving DecidableEq

/-- The start of both requests: the peers, and the ids of those the node is connected to. An
error has a status and a text. -/
def HttpApiState.peersAndConnected (self : HttpApiState PeerId) (lib : Externals PeerId)
    (formats : PeerIdFormats PeerId) (o : PeersListing)
    (order : IterationOrder (String × PeerVaultInfo)) (connected : Except String (List PeerId)) :
    Except (ℕ × String) (ZingWallet × List PeerInfo × List String) :=
  match self.wallet with
  | none => .error (400, "Wallet not configured")
  | some wallet =>
      match wallet.listAllPeers lib formats o order with
      | .error e => .error (500, e.display)
      | .ok peers =>
          match connected with
          | .error e => .error (500, e)
          | .ok connected => .ok (wallet, peers, connected.map lib.peerIdToString)

/-- A peer as `handle_staking` shows it. -/
def stakingRow (connectedIds : List String) (p : PeerInfo) : StakingPeerInfo where
  suiAddress := p.suiAddress
  peerIdShort := ZingCdn.peerIdShort p.peerIdB58
  peerObjectId := p.peerObjectId
  bond := p.bond
  isActive := p.isActive
  isLive := p.peerIdB58 ∈ connectedIds
  vaultReserves := p.vault.map (·.reserves)
  vaultTotalShares := p.vault.map (·.totalShares)
  vaultCommissionBps := p.vault.map (·.commissionBps)
  vaultPeerEarnings := p.vault.map (·.peerEarnings)
  vaultObjectId := p.vault.map (·.vaultObjectId)

/-- A peer as `handle_my_peer` shows it. -/
def myPeerRow (walletAddress : String) (connectedIds : List String) :
    Option PeerInfo → MyPeerInfo
  | some p =>
      { walletAddress
        peerObjectId := p.peerObjectId
        peerIdShort := some (ZingCdn.peerIdShort p.peerIdB58)
        bond := some p.bond
        isActive := some p.isActive
        isLive := some (p.peerIdB58 ∈ connectedIds)
        isRegistered := true }
  | none =>
      { walletAddress
        peerObjectId := ""
        peerIdShort := none
        bond := none
        isActive := none
        isLive := none
        isRegistered := false }

/-- `handle_staking`. -/
def HttpApiState.handleStaking (self : HttpApiState PeerId) (lib : Externals PeerId)
    (formats : PeerIdFormats PeerId) (o : PeersListing)
    (order : IterationOrder (String × PeerVaultInfo)) (connected : Except String (List PeerId)) :
    Except (ℕ × String) (List StakingPeerInfo) :=
  match self.peersAndConnected lib formats o order connected with
  | .error e => .error e
  | .ok (_, peers, connectedIds) => .ok (peers.map (stakingRow connectedIds))

/-- `handle_my_peer`, with the text `{:#}` of an address. -/
def HttpApiState.handleMyPeer (self : HttpApiState PeerId) (lib : Externals PeerId)
    (formats : PeerIdFormats PeerId) (alternate : Address → String) (o : PeersListing)
    (order : IterationOrder (String × PeerVaultInfo)) (connected : Except String (List PeerId)) :
    Except (ℕ × String) MyPeerInfo :=
  match self.peersAndConnected lib formats o order connected with
  | .error e => .error e
  | .ok (wallet, peers, connectedIds) =>
      let walletAddress := alternate wallet.address
      .ok (myPeerRow walletAddress connectedIds
        (peers.find? fun p => p.suiAddress = walletAddress))

/-! ### Honest listings -/

/-- The JSON of a `Peer` object, with what the listing reads of it. -/
structure JsonKind.ShowsPeer (json : Option JsonKind) (formats : PeerIdFormats PeerId) (p : Peer)
    (fields : List (String × Option FieldKind)) : Prop where
  json : json = some (.structValue fields)
  peerId : ∃ peerIdB64, stringField fields "peer_id" = some peerIdB64 ∧
    formats.base64Decode peerIdB64 = .ok p.peerId
  suiAddress : stringField fields "sui_address" = some (addressKey p.suiAddress.bytes.toList)
  bond : (stringField fields "bond").bind parseU64 = some p.bond
  isActive : boolField fields "is_active" = some p.isActive

namespace PeersListing

/-- What is read is what is on chain; any of it may fail to arrive. -/
structure Honest (o : PeersListing) (formats : PeerIdFormats PeerId) (l : StakingLedger) :
    Prop where
  entries : ∀ df, .ok df ∈ o.fields → ∃ entry ∈ l.registry, df.Encodes entry
  objects : ∀ results, o.objects = .ok results →
    ∀ objId json, (objId, .object (some json)) ∈ (peerObjectIds o.fields).zip results →
      ∀ p ∈ l.peers, objId = objectKey p.id → ∃ fields, JsonKind.ShowsPeer json formats p fields

/-- The entry of the peer arrives and its object is read. -/
def Reads (o : PeersListing) (p : Peer) : Prop :=
  ∃ results json, o.objects = .ok results ∧
    (objectKey p.id, .object (some json)) ∈ (peerObjectIds o.fields).zip results

end PeersListing

/-- The row of a peer. -/
def Peer.row (p : Peer) (lib : Externals PeerId) (peerId : PeerId)
    (vault : Option PeerVaultInfo) : PeerInfo where
  suiAddress := addressKey p.suiAddress.bytes.toList
  peerIdB58 := lib.peerIdToString peerId
  bond := p.bond
  isActive := p.isActive
  peerObjectId := objectKey p.id
  vault

/-- The vault that the listing has for an address: the last one read for its entries. -/
def shownVault (a : Address) (o : VaultListing) : Option PeerVaultInfo :=
  match o.client with
  | .ok () => (recipientVaults a o).getLast?
  | .error _ => none

section Rows

variable {wallet : ZingWallet} {settlement : SettlementConfig} {lib : Externals PeerId}
  {formats : PeerIdFormats PeerId} {o : PeersListing}
  {order : IterationOrder (String × PeerVaultInfo)}

/-- The walk of the vaults that the wallet sees. -/
theorem vaultOfAddress_seenVaults (hs : wallet.settlement = some settlement) (a : Address)
    (vaults : VaultListing) :
    vaultOfAddress (order.visit (wallet.seenVaults vaults)) (addressKey a.bytes.toList)
      = shownVault a vaults := by
  rw [ZingWallet.seenVaults, shownVault]
  cases hlist : wallet.listPeerVaults vaults with
  | ok listed =>
      have hclient := ((listPeerVaults_eq_ok_iff hs).mp hlist).1.client
      simp only [hclient, vaultOfAddress_listed hs hlist a order]
  | error e =>
      have hnil : order.visit [] = [] := (order.perm []).eq_nil
      have hunreadable : ¬vaults.Readable := fun hr => by
        cases hlist.symm.trans ((listPeerVaults_eq_ok_iff hs).mpr ⟨hr, rfl⟩)
      simp only [hnil]
      cases hclient : vaults.client with
      | error e => rfl
      | ok =>
          cases hobjects : vaults.objects with
          | error e => simp [recipientVaults, hobjects, vaultOfAddress]
          | ok results => exact absurd ⟨hclient, fun _ => ⟨results, hobjects⟩⟩ hunreadable

/-- The peer of an object that shows it. -/
theorem parsePeerJson_of_shows {json : Option JsonKind} {p : Peer}
    {fields : List (String × Option FieldKind)} (h : JsonKind.ShowsPeer json formats p fields) :
    parsePeerJson lib formats json (objectKey p.id)
      = (formats.fromBytes p.peerId).map fun peerId => p.row lib peerId none := by
  obtain ⟨peerIdB64, hfield, hdecode⟩ := h.peerId
  rw [h.json, parsePeerJson]
  cases hpeer : formats.fromBytes p.peerId <;>
    simp [hfield, hdecode, hpeer, h.suiAddress, h.bond, h.isActive, Peer.row, Except.toOption]

theorem attachVault_row (hs : wallet.settlement = some settlement) (p : Peer) (peerId : PeerId)
    (vaults : VaultListing) :
    attachVault (order.visit (wallet.seenVaults vaults)) (p.row lib peerId none)
      = p.row lib peerId (shownVault p.suiAddress vaults) := by
  have hseen : vaultOfAddress (order.visit (wallet.seenVaults vaults))
      (addressKey p.suiAddress.bytes.toList) = shownVault p.suiAddress vaults :=
    vaultOfAddress_seenVaults hs p.suiAddress vaults
  rw [attachVault, ← hseen]
  rfl

/-- An object id that is asked for is that of a registered peer. -/
theorem peer_of_mem_peerObjectIds {run : StakingRun} (hv : run.Valid)
    (h : o.Honest formats run.ledger) {objId : String} (hid : objId ∈ peerObjectIds o.fields) :
    ∃ p ∈ run.ledger.peers, objId = objectKey p.id := by
  obtain ⟨item, hitem, hsome⟩ := List.mem_filterMap.mp hid
  cases item with
  | error e => cases hsome
  | ok df =>
      obtain ⟨entry, hentry, hdf⟩ := h.entries df hitem
      rw [hv.registry] at hentry
      obtain ⟨p, hp, rfl⟩ := List.mem_map.mp hentry
      exact ⟨p, hp, Option.some.inj (hsome.symm.trans hdf.vaultId)⟩

/-- **Which rows there are**: one for every registered peer whose entry arrives, whose object is
read and whose id is one of libp2p. -/
theorem mem_listAllPeers_iff (hs : wallet.settlement = some settlement) {run : StakingRun}
    (hv : run.Valid) (h : o.Honest formats run.ledger) {rows : List PeerInfo}
    (hrows : wallet.listAllPeers lib formats o order = .ok rows) {row : PeerInfo} :
    row ∈ rows ↔ ∃ p ∈ run.ledger.peers, ∃ peerId, o.Reads p ∧
      formats.fromBytes p.peerId = some peerId ∧
      row = p.row lib peerId (shownVault p.suiAddress o.vaults) := by
  rw [ZingWallet.listAllPeers, hs] at hrows
  rcases hclient : o.client with e | ⟨⟩
  · simp [hclient] at hrows
  simp only [hclient] at hrows
  split at hrows
  · -- no entry arrives
    rename_i hempty
    obtain rfl := Except.ok.inj hrows
    refine ⟨(nomatch ·), ?_⟩
    rintro ⟨p, -, peerId, ⟨results, json, -, hpair⟩, -, -⟩
    rw [List.isEmpty_iff.mp hempty] at hpair
    cases hpair
  rcases hobjects : o.objects with e | results
  · simp [hobjects] at hrows
  simp only [hobjects, Except.ok.injEq] at hrows
  subst hrows
  rw [List.mem_map]
  constructor
  · rintro ⟨peer, hpeer, rfl⟩
    obtain ⟨⟨objId, r⟩, hpair, hread⟩ := List.mem_filterMap.mp hpeer
    obtain ⟨p, hp, rfl⟩ := peer_of_mem_peerObjectIds hv h (List.of_mem_zip hpair).1
    rcases r with (- | json) | - | -
    · cases hread
    · obtain ⟨fields, hshows⟩ := h.objects results hobjects _ json hpair p hp rfl
      obtain ⟨peerId, hvalid, rfl⟩ :=
        Option.map_eq_some_iff.mp ((parsePeerJson_of_shows hshows).symm.trans hread)
      exact ⟨p, hp, peerId, ⟨results, json, hobjects, hpair⟩, hvalid, attachVault_row hs p peerId _⟩
    · cases hread
    · cases hread
  · rintro ⟨p, hp, peerId, ⟨results', json, hresults, hpair⟩, hvalid, rfl⟩
    obtain rfl := Except.ok.inj (hobjects.symm.trans hresults)
    obtain ⟨fields, hshows⟩ := h.objects results hobjects _ json hpair p hp rfl
    have hread : readPeer lib formats (objectKey p.id) (.object (some json))
        = some (p.row lib peerId none) := by
      rw [readPeer, parsePeerJson_of_shows hshows, hvalid, Option.map_some]
    exact ⟨_, List.mem_filterMap.mpr ⟨_, hpair, hread⟩, attachVault_row hs p peerId _⟩

/-- The row of an address is that of its peer. -/
theorem find_listAllPeers_iff (hs : wallet.settlement = some settlement) {run : StakingRun}
    (hv : run.Valid) (h : o.Honest formats run.ledger) {rows : List PeerInfo}
    (hrows : wallet.listAllPeers lib formats o order = .ok rows) {a : Address} {row : PeerInfo} :
    (rows.find? fun r => r.suiAddress = addressKey a.bytes.toList) = some row ↔
      ∃ p ∈ run.ledger.peers, ∃ peerId, p.suiAddress = a ∧ o.Reads p ∧
        formats.fromBytes p.peerId = some peerId ∧
        row = p.row lib peerId (shownVault p.suiAddress o.vaults) := by
  have haddress : ∀ {r : PeerInfo} {p : Peer} {peerId : PeerId} {vault : Option PeerVaultInfo},
      r = p.row lib peerId vault → (r.suiAddress = addressKey a.bytes.toList ↔ p.suiAddress = a) := by
    rintro r p peerId vault rfl
    refine Iff.trans addressKey_inj ⟨fun hb => ?_, fun ha => ha ▸ rfl⟩
    exact congrArg Address.mk (List.Vector.eq _ _ hb)
  have hfound : ∀ {r : PeerInfo}, (rows.find? fun r => r.suiAddress = addressKey a.bytes.toList)
      = some r → ∃ p ∈ run.ledger.peers, ∃ peerId, p.suiAddress = a ∧ o.Reads p ∧
        formats.fromBytes p.peerId = some peerId ∧
        r = p.row lib peerId (shownVault p.suiAddress o.vaults) := by
    intro r hr
    obtain ⟨p, hp, peerId, hreads, hvalid, hrow⟩ :=
      (mem_listAllPeers_iff hs hv h hrows).mp (List.mem_of_find?_eq_some hr)
    have hkey := List.find?_some hr
    exact ⟨p, hp, peerId, (haddress hrow).mp (of_decide_eq_true hkey), hreads, hvalid, hrow⟩
  refine ⟨hfound, ?_⟩
  rintro ⟨p, hp, peerId, rfl, hreads, hvalid, rfl⟩
  have hmem := (mem_listAllPeers_iff hs hv h hrows).mpr ⟨p, hp, peerId, hreads, hvalid, rfl⟩
  have hsome : (rows.find? fun r => r.suiAddress = addressKey p.suiAddress.bytes.toList).isSome :=
    List.find?_isSome.mpr ⟨_, hmem, decide_eq_true rfl⟩
  obtain ⟨r, hr⟩ := Option.isSome_iff_exists.mp hsome
  obtain ⟨q, hq, peerId', hqaddress, -, hqvalid, rfl⟩ := hfound hr
  obtain rfl := KeyedList.eq_of_key_eq hv.addresses_nodup hq hp hqaddress
  obtain rfl := Option.some.inj (hqvalid.symm.trans hvalid)
  exact hr

end Rows

/-! ### What is shown -/

section Shown

variable {self : HttpApiState PeerId} {wallet : ZingWallet} {settlement : SettlementConfig}
  {lib : Externals PeerId} {formats : PeerIdFormats PeerId} {o : PeersListing}
  {order : IterationOrder (String × PeerVaultInfo)} {connected : List PeerId}

theorem peersAndConnected_eq_ok_iff (hw : self.wallet = some wallet) {w : ZingWallet}
    {peers : List PeerInfo} {ids : List String} :
    self.peersAndConnected lib formats o order (.ok connected) = .ok (w, peers, ids) ↔
      wallet.listAllPeers lib formats o order = .ok peers ∧ w = wallet ∧
        ids = connected.map lib.peerIdToString := by
  simp only [HttpApiState.peersAndConnected, hw]
  rcases wallet.listAllPeers lib formats o order with e | peers'
  · exact ⟨(nomatch ·), (nomatch ·.1)⟩
  · simp only [Except.ok.injEq, Prod.mk.injEq]
    exact ⟨fun ⟨hwallet, hpeers, hconnected⟩ => ⟨hpeers, hwallet.symm, hconnected.symm⟩,
      fun ⟨hpeers, hwallet, hconnected⟩ => ⟨hwallet.symm, hpeers, hconnected.symm⟩⟩

/-- **What the peers are shown as.** The answers are those of a reachable staking registry and of
a reachable vault registry. The rows of `handle_staking` are those of the registered peers that
are read and have an id of libp2p, live exactly when the node is connected to them; the vault of a
row is the one that the last entry of its address names, as it is. `handle_my_peer` says
registered exactly when the wallet's peer is one of them, and shows that peer. -/
theorem listed_peers (hw : self.wallet = some wallet) (hs : wallet.settlement = some settlement)
    {alternate : Address → String}
    (halternate : alternate wallet.address = addressKey wallet.address.bytes.toList)
    (hids : Function.Injective lib.peerIdToString) {run : StakingRun} (hrun : run.Reachable)
    {vaultRun : RegistryRun} (hvaultRun : vaultRun.Reachable)
    (h : o.Honest formats run.ledger)
    (hlists : o.vaults.ListsTable vaultRun.ledger.peerVaults) :
    (∀ rows, self.handleStaking lib formats o order (.ok connected) = .ok rows → ∀ row,
      row ∈ rows ↔ ∃ p ∈ run.ledger.peers, ∃ peerId, o.Reads p ∧
        formats.fromBytes p.peerId = some peerId ∧
        row = stakingRow (connected.map lib.peerIdToString)
          (p.row lib peerId (shownVault p.suiAddress o.vaults)) ∧
        (row.isLive ↔ peerId ∈ connected)) ∧
    (∀ a info, shownVault a o.vaults = some info → ∃ id, vaultRun.entries a = some id ∧
      info.vaultObjectId = objectKey id ∧
      ∀ vaults, o.vaults.ShowsVaults vaults → ∀ v ∈ vaults, v.id = id → info = v.info) ∧
    ∀ mine, self.handleMyPeer lib formats alternate o order (.ok connected) = .ok mine →
      (mine.isRegistered ↔ ∃ p ∈ run.ledger.peers, p.suiAddress = wallet.address ∧ o.Reads p ∧
        (formats.fromBytes p.peerId).isSome) ∧
      ∀ p ∈ run.ledger.peers, p.suiAddress = wallet.address → o.Reads p → ∀ peerId,
        formats.fromBytes p.peerId = some peerId →
          mine.peerObjectId = objectKey p.id ∧ mine.bond = some p.bond ∧
          mine.isActive = some p.isActive ∧ (mine.isLive = some true ↔ peerId ∈ connected) := by
  have hv := StakingRun.valid_of_reachable hrun
  have hlive : ∀ peerId, lib.peerIdToString peerId ∈ connected.map lib.peerIdToString ↔
      peerId ∈ connected := fun _ => List.mem_map_of_injective hids
  refine ⟨fun rows hrows row => ?_, fun a info hinfo => ?_, fun mine hmine => ?_⟩
  · rw [HttpApiState.handleStaking] at hrows
    split at hrows
    · cases hrows
    rename_i w peers ids hanswer
    obtain ⟨hlist, rfl, rfl⟩ := (peersAndConnected_eq_ok_iff hw).mp hanswer
    obtain rfl := Except.ok.inj hrows
    rw [List.mem_map]
    constructor
    · rintro ⟨peer, hpeer, rfl⟩
      obtain ⟨p, hp, peerId, hreads, hvalid, rfl⟩ := (mem_listAllPeers_iff hs hv h hlist).mp hpeer
      exact ⟨p, hp, peerId, hreads, hvalid, rfl, decide_eq_true_iff.trans (hlive peerId)⟩
    · rintro ⟨p, hp, peerId, hreads, hvalid, rfl, -⟩
      exact ⟨_, (mem_listAllPeers_iff hs hv h hlist).mpr ⟨p, hp, peerId, hreads, hvalid, rfl⟩, rfl⟩
  · rw [shownVault] at hinfo
    split at hinfo
    · exact entry_of_recipientVaults hvaultRun hlists (List.mem_of_getLast? hinfo)
    · cases hinfo
  · rw [HttpApiState.handleMyPeer] at hmine
    split at hmine
    · cases hmine
    rename_i w peers ids hanswer
    obtain ⟨hlist, rfl, rfl⟩ := (peersAndConnected_eq_ok_iff hw).mp hanswer
    obtain rfl := Except.ok.inj hmine
    simp only [halternate]
    cases hfound : peers.find? fun r => r.suiAddress = addressKey w.address.bytes.toList with
    | none =>
        have hnone : ∀ p ∈ run.ledger.peers, p.suiAddress = w.address → o.Reads p →
            ∀ peerId, formats.fromBytes p.peerId ≠ some peerId := by
          intro p hp haddress hreads peerId hvalid
          have hsome := (find_listAllPeers_iff hs hv h hlist).mpr
            ⟨p, hp, peerId, haddress, hreads, hvalid, rfl⟩
          cases hfound.symm.trans hsome
        refine ⟨⟨(nomatch ·), ?_⟩, fun p hp haddress hreads peerId hvalid => ?_⟩
        · rintro ⟨p, hp, haddress, hreads, hvalid⟩
          obtain ⟨peerId, hvalid⟩ := Option.isSome_iff_exists.mp hvalid
          exact absurd hvalid (hnone p hp haddress hreads peerId)
        · exact absurd hvalid (hnone p hp haddress hreads peerId)
    | some row =>
        obtain ⟨q, hq, peerId', hqaddress, hqreads, hqvalid, rfl⟩ :=
          (find_listAllPeers_iff hs hv h hlist).mp hfound
        refine ⟨⟨fun _ => ⟨q, hq, hqaddress, hqreads, hqvalid ▸ rfl⟩, fun _ => rfl⟩,
          fun p hp haddress _ peerId hvalid => ?_⟩
        obtain rfl := KeyedList.eq_of_key_eq hv.addresses_nodup hq hp (hqaddress.trans haddress.symm)
        obtain rfl := Option.some.inj (hqvalid.symm.trans hvalid)
        refine ⟨rfl, rfl, rfl, ?_⟩
        exact Option.some_inj.trans (decide_eq_true_iff.trans (hlive peerId'))

end Shown

/-- The fields of the wallet's peer as the listing reads them. -/
def listedPeerFields : List (String × Option FieldKind) :=
  [("peer_id", some (.stringValue "AQ==")),
    ("sui_address", some (.stringValue (addressKey (sampleAddress 5).bytes.toList))),
    ("bond", some (.stringValue "1000000000")), ("is_active", some (.boolValue true))]

/-- The staking table has the wallet's peer, the vault table that of another address. -/
def sampleListing : PeersListing where
  client := .ok ()
  fields := [.ok samplePeerEntry]
  objects := .ok [.object (some (some (.structValue listedPeerFields)))]
  vaults := openedListing

/-- Peer ids of one byte. -/
def listingFormats : PeerIdFormats ℕ := ⟨sampleBase64Decode, fun bytes => bytes.head?.map (·.toNat)⟩

theorem sampleListing_honest : sampleListing.Honest listingFormats registeredRun.ledger := by
  constructor
  · intro df hdf
    obtain rfl := Except.ok.inj (List.mem_singleton.mp hdf)
    exact ⟨(sampleAddress 5, sampleId 1), by decide, rfl, rfl, rfl⟩
  · intro results hresults objId json hpair p hp _
    obtain rfl := Except.ok.inj hresults
    obtain ⟨rfl, hjson⟩ := Prod.mk.inj (List.mem_singleton.mp hpair)
    obtain rfl := Option.some.inj (ObjectResult.object.inj hjson)
    rw [registeredRun_peers, List.mem_singleton] at hp
    subst hp
    exact ⟨listedPeerFields, rfl, ⟨"AQ==", rfl, rfl⟩, rfl, rfl, rfl⟩

/-- The wallet's peer is shown with its bond, and the node is not connected to it. -/
theorem listed_peers_registered :
    ∃ mine, HttpApiState.handleMyPeer ⟨0, some payingWallet⟩ sampleExternals listingFormats
        addressAlternate sampleListing ⟨id, fun _ => .refl _⟩ (.ok [2]) = .ok mine ∧
      mine.isRegistered = true ∧ mine.bond = some 1000000000 ∧ mine.isLive ≠ some true := by
  have hpeer : samplePeer true ∈ registeredRun.ledger.peers :=
    registeredRun_peers ▸ List.mem_singleton_self _
  have hreads : sampleListing.Reads (samplePeer true) := ⟨_, _, rfl, List.mem_singleton_self _⟩
  have hmine : ∃ mine, HttpApiState.handleMyPeer ⟨0, some payingWallet⟩ sampleExternals
      listingFormats addressAlternate sampleListing ⟨id, fun _ => .refl _⟩ (.ok [2]) = .ok mine :=
    ⟨_, rfl⟩
  obtain ⟨mine, hmine⟩ := hmine
  obtain ⟨hregistered, hshown⟩ := (listed_peers rfl rfl rfl sampleExternals_peerIdToString_injective
    (StakingRun.reachable_runOf _ _) RegistryRun.reachable_openedRun sampleListing_honest
    (openedListing_listsTable List.mem_cons_self)).2.2 mine hmine
  obtain ⟨-, hbond, -, hlive⟩ := hshown _ hpeer rfl hreads 1 rfl
  exact ⟨mine, hmine, hregistered.mpr ⟨_, hpeer, rfl, hreads, rfl⟩, hbond,
    fun h => absurd (hlive.mp h) (by decide)⟩

end ZingCdn
