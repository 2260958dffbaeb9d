import ZingCdn.StakingRegistry
import ZingCdn.VaultRouting

/-!
# Registering the Node

At its start a node whose wallet has a settlement configuration makes its wallet's entry in
the staking registry agree with its peer id: `ensure_peer_registered` looks the wallet up,
then calls `staking::register` or `staking::update_peer_id`.

The lookup, `is_peer_registered`, answers a narrower question than its name says. It lists
the registry table, reads the `Peer` object of the wallet's entry and returns its
`is_active`; an address outside of the registry, a deactivated peer and an object without
the field are all `Ok(false)`, and a failed read is an error. `ensure_peer_registered`
registers in each of these cases, while the contract rejects a second registration whatever
the state of the peer.

The node's answers to the two rounds of reads are parameters (`RegistryReads`), and so is
what becomes of the one transaction that is made of them (`WriteOutcome`).

## Main results

* `isPeerRegistered_eq_true_iff`, `getRegisteredPeerInfo_eq_some_iff`: what the reads yield.
* `registerPeer_tx_iff`, `updatePeerId_tx_iff`: what is submitted.
* `registration_reconciles_iff`: when the node reconciles the registry with its peer id.
* `not_reconciles_deactivated`: a deactivated peer registers again and is rejected.
-/

namespace ZingCdn

variable {PeerId : Type}

/-! ### Reading the registry -/

/-- An object as read: its JSON, and its owner with the version it is shared from. -/
structure PeerObject where
  json : Option (Option JsonKind)
  owner : Option (Option ℕ)
deriving DecidableEq

/-- The answers of the RPC node to one round of reads: the client, the stream of the entries
of a table, and an object by its id. -/
structure RpcAnswers where
  client : Except String Unit
  listDynamicFields : String → List (Except String DynamicField)
  getObject : String → Except String (Option PeerObject)

/-- The boolean in a field of a JSON struct. -/
def boolField (fields : List (String × Option FieldKind)) (name : String) : Option Bool :=
  match (fields.find? fun f => f.1 = name).bind Prod.snd with
  | some (.boolValue b) => some b
  | _ => none

/-- The object id in a stream item, when it is the entry of the address. -/
def listedObject (address : Address) : Except String DynamicField → Option String
  | .ok df => if df.name.join = some address.bytes.toList then df.vaultId else none
  | .error _ => none

/-- The parent of the entries that are listed. -/
def SettlementConfig.peersTableKey (self : SettlementConfig) : String :=
  addressKey self.registryPeersTableId.bytes.toList

/-- The part that `is_peer_registered` and `get_registered_peer_info` have in common, up to
the object id of the first usable entry of the wallet; failed stream items are skipped. -/
def ZingWallet.findPeerObject (self : ZingWallet) (rpc : RpcAnswers) :
    ZingResult (Option String) :=
  match self.settlement with
  | none => .ok none
  | some settlement =>
      match rpc.client with
      | .error e => .error (.suiClient ("rpc: " ++ e))
      | .ok () =>
          let items := rpc.listDynamicFields settlement.peersTableKey
          .ok (items.findSome? (listedObject self.address))

/-- `check_peer_active`. -/
def checkPeerActive (rpc : RpcAnswers) (vaultId : String) : ZingResult Bool :=
  match rpc.getObject vaultId with
  | .error e => .error (.suiClient ("get vault: " ++ e))
  | .ok none => .error (.suiClient "vault object not found")
  | .ok (some object) =>
      match object.json with
      | some (some (.structValue fields)) => .ok ((boolField fields "is_active").getD false)
      | _ => .ok false

/-- `is_peer_registered`. -/
def ZingWallet.isPeerRegistered (self : ZingWallet) (rpc : RpcAnswers) : ZingResult Bool :=
  match self.findPeerObject rpc with
  | .error e => .error e
  | .ok none => .ok false
  | .ok (some vaultId) => checkPeerActive rpc vaultId

/-- `parse_peer_id_from_json`, with the decoder of base64. -/
def parsePeerIdFromJson (base64Decode : String → Except String Bytes) :
    Option JsonKind → ZingResult Bytes
  | some (.structValue fields) =>
      match stringField fields "peer_id" with
      | none => .error (.suiClient "missing peer_id field")
      | some peerIdB64 =>
          match base64Decode peerIdB64 with
          | .error e => .error (.suiClient ("decode peer_id: " ++ e))
          | .ok bytes => .ok bytes
  | _ => .error (.suiClient "peer object json not a struct")

/-- The registered peer of a wallet, as read. -/
structure RegisteredPeerInfo where
  peerIdBytes : Bytes
  peerObjectId : String
  initialSharedVersion : ℕ
deriving DecidableEq

/-- The end of `get_registered_peer_info`, which reads the object of the entry. -/
def readPeerInfo (base64Decode : String → Except String Bytes) (rpc : RpcAnswers)
    (peerObjectId : String) : ZingResult RegisteredPeerInfo :=
  match rpc.getObject peerObjectId with
  | .error e => .error (.suiClient ("get peer object: " ++ e))
  | .ok none => .error (.suiClient "peer object not found")
  | .ok (some object) =>
      match object.json with
      | none => .error (.suiClient "peer object has no json")
      | some json =>
          match parsePeerIdFromJson base64Decode json with
          | .error e => .error e
          | .ok peerIdBytes =>
              match object.owner.join with
              | none => .error (.suiClient "peer object has no initial_shared_version")
              | some initialSharedVersion =>
                  .ok { peerIdBytes, peerObjectId, initialSharedVersion }

/-- `get_registered_peer_info`. -/
def ZingWallet.getRegisteredPeerInfo (self : ZingWallet)
    (base64Decode : String → Except String Bytes) (rpc : RpcAnswers) :
    ZingResult (Option RegisteredPeerInfo) :=
  match self.findPeerObject rpc with
  | .error e => .error e
  | .ok none => .ok none
  | .ok (some peerObjectId) => (readPeerInfo base64Decode rpc peerObjectId).map some

/-! ### The two transactions -/

/-- A transaction calling a function of `staking` on the registry: `register` with the peer
id and a bond, or `update_peer_id` with the peer and the peer id. -/
structure StakingTransaction where
  sender : Address
  package : Address
  moduleName : String
  function : String
  registry : SharedInput
  peer : Option SharedInput
  peerId : Bytes
  /-- the type and the amount of the coin the builder selects and splits -/
  bond : Option (StructTag × ℕ)
  gasBudget : ℕ
deriving DecidableEq

/-- The call of the contract in a transaction. -/
def StakingTransaction.call? (tx : StakingTransaction) : Option StakingCall :=
  if tx.moduleName = "staking" then
    match tx.function, tx.peer, tx.bond with
    | "register", none, some bond => some (.register tx.peerId bond.2)
    | "update_peer_id", some peer, none => some (.updatePeerId ⟨peer.objectId⟩ tx.peerId)
    | _, _, _ => none
  else none

/-- `SettlementConfig::build_register_transaction`; `none` is the panic on a configured coin
type that does not parse. -/
def SettlementConfig.buildRegisterTransaction (self : SettlementConfig)
    (lib : Externals PeerId) (sender : Address) (peerIdBytes : Bytes) (amount : ℕ) :
    Option StakingTransaction :=
  (lib.structTagFromStr self.walCoinType).map fun tag => {
    sender
    package := self.packageId
    moduleName := "staking"
    function := "register"
    registry := ⟨self.registryObjectId, self.registryInitialSharedVersion, true⟩
    peer := none
    peerId := peerIdBytes
    bond := some (tag, amount)
    gasBudget := 10000000 }

/-- `SettlementConfig::build_update_peer_id_transaction`. -/
def SettlementConfig.buildUpdatePeerIdTransaction (self : SettlementConfig) (sender : Address)
    (peerObjectId : Address) (peerInitialSharedVersion : ℕ) (newPeerId : Bytes) :
    StakingTransaction where
  sender
  package := self.packageId
  moduleName := "staking"
  function := "update_peer_id"
  registry := ⟨self.registryObjectId, self.registryInitialSharedVersion, false⟩
  peer := some ⟨peerObjectId, peerInitialSharedVersion, true⟩
  peerId := newPeerId
  bond := none
  gasBudget := 5000000

/-- What becomes of a transaction: the client, the build, the signature, and the execution
until a checkpoint. A step that is not reached is not looked at. -/
structure WriteOutcome where
  client : Except String Unit
  build : Except String Unit
  sign : Except String Unit
  execute : Except String Unit
deriving DecidableEq

/-- The transaction a call submitted, if any, and its result; no result is a panic. -/
structure Submission where
  tx : Option StakingTransaction
  result : Option (ZingResult Unit)
deriving DecidableEq

/-- Nothing is submitted. -/
def Submission.unsent (result : ZingResult Unit) : Submission := ⟨none, some result⟩

/-- The end of both writes: build, sign, submit and wait for the checkpoint, with the texts
of the write for a failed build and a failed execution. -/
def StakingTransaction.submitWith (tx : StakingTransaction) (buildText executeText : String)
    (w : WriteOutcome) : Submission :=
  match w.build with
  | .error e => .unsent (.error (.suiClient (buildText ++ e)))
  | .ok () =>
      match w.sign with
      | .error e => .unsent (.error (.suiClient ("sign: " ++ e)))
      | .ok () =>
          match w.execute with
          | .error e => ⟨some tx, some (.error (.suiClient (executeText ++ e)))⟩
          | .ok () => ⟨some tx, some (.ok ())⟩

/-- `register_peer`. -/
def ZingWallet.registerPeer (self : ZingWallet) (lib : Externals PeerId) (peerIdBytes : Bytes)
    (w : WriteOutcome) : Submission :=
  match self.settlement with
  | none => .unsent (.ok ())
  | some settlement =>
      match w.client with
      | .error e => .unsent (.error (.suiClient ("rpc: " ++ e)))
      | .ok () =>
          match settlement.buildRegisterTransaction lib self.address peerIdBytes 1000000000 with
          | none => ⟨none, none⟩
          | some tx => tx.submitWith "register: " "register tx: " w

/-- `update_peer_id`. -/
def ZingWallet.updatePeerId (self : ZingWallet) (lib : Externals PeerId)
    (base64Decode : String → Except String Bytes) (newPeerIdBytes : Bytes) (rpc : RpcAnswers)
    (w : WriteOutcome) : Submission :=
  match self.settlement with
  | none => .unsent (.ok ())
  | some settlement =>
      match self.getRegisteredPeerInfo base64Decode rpc with
      | .error e => .unsent (.error e)
      | .ok none => .unsent (.error (.suiClient "not registered"))
      | .ok (some info) =>
          if info.peerIdBytes = newPeerIdBytes then .unsent (.ok ())
          else
            match w.client with
            | .error e => .unsent (.error (.suiClient ("rpc: " ++ e)))
            | .ok () =>
                match lib.parseAddress info.peerObjectId with
                | .error e => .unsent (.error (.suiClient ("parse peer object id: " ++ e)))
                | .ok peerObjAddr =>
                    (settlement.buildUpdatePeerIdTransaction self.address peerObjAddr
                      info.initialSharedVersion newPeerIdBytes).submitWith
                      "build update: " "update peer id tx: " w

/-- The answers to the two rounds of reads: of `is_peer_registered`, and of
`get_registered_peer_info`. -/
structure RegistryReads where
  lookup : RpcAnswers
  info : RpcAnswers

/-- `ensure_peer_registered`. -/
def ZingWallet.ensurePeerRegistered (self : ZingWallet) (lib : Externals PeerId)
    (base64Decode : String → Except String Bytes) (peerIdBytes : Bytes) (reads : RegistryReads)
    (w : WriteOutcome) : Submission :=
  match self.isPeerRegistered reads.lookup with
  | .ok true => self.updatePeerId lib base64Decode peerIdBytes reads.info w
  | _ => self.registerPeer lib peerIdBytes w

/-! ### What the reads yield -/

/-- An object id as the requests and the listings have it. -/
def objectKey (id : ID) : String := addressKey id.bytes.bytes.toList

/-- The stream item of a registry entry; names and values are asked for, child ids are not. -/
structure DynamicField.Encodes (df : DynamicField) (entry : Address × ID) : Prop where
  childId : df.childId = none
  name : df.name = some (some entry.1.bytes.toList)
  value : df.value = some (some entry.2.bytes.bytes.toList)

/-- The JSON of a `Peer` object. -/
structure PeerObject.Shows (object : PeerObject) (base64Decode : String → Except String Bytes)
    (p : Peer) (fields : List (String × Option FieldKind)) : Prop where
  json : object.json = some (some (.structValue fields))
  isActive : boolField fields "is_active" = some p.isActive
  peerId : ∃ peerIdB64, stringField fields "peer_id" = some peerIdB64 ∧
    base64Decode peerIdB64 = .ok p.peerId

section Reads

variable {settlement : SettlementConfig} {base64Decode : String → Except String Bytes}
  {l : StakingLedger} {rpc : RpcAnswers}

/-- What is read is what is on chain: every entry that arrives is one of the registry, and
every object that is read is the peer's. Any of it may fail to arrive. -/
structure RpcAnswers.Honest (rpc : RpcAnswers) (settlement : SettlementConfig)
    (base64Decode : String → Except String Bytes) (l : StakingLedger) : Prop where
  entries : ∀ df, .ok df ∈ rpc.listDynamicFields settlement.peersTableKey →
    ∃ entry ∈ l.registry, df.Encodes entry
  objects : ∀ p ∈ l.peers, ∀ object, rpc.getObject (objectKey p.id) = .ok (some object) →
    ∃ fields, object.Shows base64Decode p fields

/-- The entry of the peer arrives. -/
def RpcAnswers.Lists (rpc : RpcAnswers) (settlement : SettlementConfig) (p : Peer) : Prop :=
  ∃ df, .ok df ∈ rpc.listDynamicFields settlement.peersTableKey ∧
    df.Encodes (p.suiAddress, p.id)

/-- The reads of the peer succeed: there is a client, the entry arrives and the object is
read. -/
structure RpcAnswers.Finds (rpc : RpcAnswers) (settlement : SettlementConfig) (p : Peer) :
    Prop where
  client : rpc.client = .ok ()
  listed : rpc.Lists settlement p
  object : ∃ object, rpc.getObject (objectKey p.id) = .ok (some object)

theorem DynamicField.Encodes.vaultId {df : DynamicField} {entry : Address × ID}
    (h : df.Encodes entry) : df.vaultId = some (objectKey entry.2) := by
  rw [DynamicField.vaultId, h.childId, h.value]
  rfl

/-- A stream item of the registry is taken exactly for the address of its entry. -/
theorem listedObject_eq_some_iff {df : DynamicField} {entry : Address × ID}
    (h : df.Encodes entry) {address : Address} {key : String} :
    listedObject address (.ok df) = some key ↔ entry.1 = address ∧ key = objectKey entry.2 := by
  have hname : df.name.join = some address.bytes.toList ↔ entry.1 = address := by
    rw [h.name, Option.join_some, Option.some.injEq]
    exact ⟨fun hb => congrArg Address.mk (List.Vector.eq _ _ hb), fun ha => ha ▸ rfl⟩
  rw [listedObject, h.vaultId]
  by_cases haddress : entry.1 = address
  · rw [if_pos (hname.mpr haddress), Option.some.injEq]
    exact ⟨fun hk => ⟨haddress, hk.symm⟩, fun hk => hk.2.symm⟩
  · rw [if_neg fun hn => haddress (hname.mp hn)]
    exact ⟨(nomatch ·), fun hk => absurd hk.1 haddress⟩

/-- The object of a peer is read as active exactly when it is read and the peer is. -/
theorem checkPeerActive_eq_true_iff (h : rpc.Honest settlement base64Decode l) {p : Peer}
    (hp : p ∈ l.peers) :
    checkPeerActive rpc (objectKey p.id) = .ok true ↔
      (∃ object, rpc.getObject (objectKey p.id) = .ok (some object)) ∧ p.isActive = true := by
  rw [checkPeerActive]
  rcases hget : rpc.getObject (objectKey p.id) with e | - | object
  · simp
  · simp
  · obtain ⟨fields, hshows⟩ := h.objects p hp object hget
    simp [hshows.json, hshows.isActive]

/-- The object of a peer is read with its id and its version. -/
theorem readPeerInfo_eq_ok_iff (h : rpc.Honest settlement base64Decode l) {p : Peer}
    (hp : p ∈ l.peers) {info : RegisteredPeerInfo} :
    readPeerInfo base64Decode rpc (objectKey p.id) = .ok info ↔
      ∃ object version, rpc.getObject (objectKey p.id) = .ok (some object) ∧
        object.owner = some (some version) ∧ info = ⟨p.peerId, objectKey p.id, version⟩ := by
  rw [readPeerInfo]
  rcases hget : rpc.getObject (objectKey p.id) with e | - | object
  · simp
  · simp
  · obtain ⟨fields, hshows⟩ := h.objects p hp object hget
    obtain ⟨peerIdB64, hfield, hdecode⟩ := hshows.peerId
    rcases howner : object.owner with - | - | version <;>
      simp [hshows.json, parsePeerIdFromJson, hfield, hdecode, howner, eq_comm]

end Reads

/-! ### What is submitted -/

section Wallet

variable {wallet : ZingWallet} {settlement : SettlementConfig} {lib : Externals PeerId}
  {base64Decode : String → Except String Bytes} {run : StakingRun} {rpc : RpcAnswers}

/-- An object id that is found is that of the wallet's peer. -/
theorem peer_of_findPeerObject (hs : wallet.settlement = some settlement) (hv : run.Valid)
    (h : rpc.Honest settlement base64Decode run.ledger) {key : String}
    (hfind : wallet.findPeerObject rpc = .ok (some key)) :
    ∃ p ∈ run.ledger.peers, p.suiAddress = wallet.address ∧ rpc.client = .ok () ∧
      rpc.Lists settlement p ∧ key = objectKey p.id := by
  rw [ZingWallet.findPeerObject, hs] at hfind
  rcases hclient : rpc.client with e | ⟨⟩
  · simp [hclient] at hfind
  simp only [hclient, Except.ok.injEq] at hfind
  obtain ⟨item, hitem, hkey⟩ := List.exists_of_findSome?_eq_some hfind
  cases item with
  | error e => cases hkey
  | ok df =>
      obtain ⟨entry, hentry, hdf⟩ := h.entries df hitem
      rw [hv.registry] at hentry
      obtain ⟨p, hp, rfl⟩ := List.mem_map.mp hentry
      obtain ⟨haddress, hkey⟩ := (listedObject_eq_some_iff hdf).mp hkey
      exact ⟨p, hp, haddress, rfl, ⟨df, hitem, hdf⟩, hkey⟩

/-- **The search of the table** finds exactly the wallet's peer, when its entry arrives. -/
theorem findPeerObject_eq_some_iff (hs : wallet.settlement = some settlement) (hv : run.Valid)
    (h : rpc.Honest settlement base64Decode run.ledger) {key : String} :
    wallet.findPeerObject rpc = .ok (some key) ↔
      ∃ p ∈ run.ledger.peers, p.suiAddress = wallet.address ∧ rpc.client = .ok () ∧
        rpc.Lists settlement p ∧ key = objectKey p.id := by
  refine ⟨peer_of_findPeerObject hs hv h, ?_⟩
  rintro ⟨p, hp, haddress, hclient, ⟨df, hitem, hdf⟩, rfl⟩
  have hlisted : listedObject wallet.address (.ok df) = some (objectKey p.id) :=
    (listedObject_eq_some_iff hdf).mpr ⟨haddress, rfl⟩
  have hsome : ((rpc.listDynamicFields settlement.peersTableKey).findSome?
      (listedObject wallet.address)).isSome :=
    List.findSome?_isSome_iff.mpr ⟨_, hitem, hlisted ▸ rfl⟩
  obtain ⟨key, hkey⟩ := Option.isSome_iff_exists.mp hsome
  have hfind : wallet.findPeerObject rpc = .ok (some key) := by
    rw [ZingWallet.findPeerObject, hs, hclient, ← hkey]
  -- an entry that comes before it is of the same address, so of the same peer
  obtain ⟨q, hq, hqaddress, -, -, rfl⟩ := peer_of_findPeerObject hs hv h hfind
  rw [hfind, KeyedList.eq_of_key_eq hv.addresses_nodup hq hp (hqaddress.trans haddress.symm)]

/-- **`is_peer_registered`** is true exactly for an active peer that the reads find. -/
theorem isPeerRegistered_eq_true_iff (hs : wallet.settlement = some settlement) (hv : run.Valid)
    (h : rpc.Honest settlement base64Decode run.ledger) :
    wallet.isPeerRegistered rpc = .ok true ↔
      ∃ p ∈ run.ledger.peers, p.suiAddress = wallet.address ∧ rpc.Finds settlement p ∧
        p.isActive = true := by
  have hreads : wallet.isPeerRegistered rpc = .ok true ↔
      ∃ key, wallet.findPeerObject rpc = .ok (some key) ∧ checkPeerActive rpc key = .ok true := by
    rw [ZingWallet.isPeerRegistered]
    rcases wallet.findPeerObject rpc with e | - | key <;> simp
  rw [hreads]
  constructor
  · rintro ⟨key, hfind, hactive⟩
    obtain ⟨p, hp, haddress, hclient, hlists, rfl⟩ :=
      (findPeerObject_eq_some_iff hs hv h).mp hfind
    obtain ⟨hobject, hactive⟩ := (checkPeerActive_eq_true_iff h hp).mp hactive
    exact ⟨p, hp, haddress, ⟨hclient, hlists, hobject⟩, hactive⟩
  · rintro ⟨p, hp, haddress, hfinds, hactive⟩
    exact ⟨_, (findPeerObject_eq_some_iff hs hv h).mpr
      ⟨p, hp, haddress, hfinds.client, hfinds.listed, rfl⟩,
      (checkPeerActive_eq_true_iff h hp).mpr ⟨hfinds.object, hactive⟩⟩

/-- **`get_registered_peer_info`** yields the id and the version of the peer that the reads
find. -/
theorem getRegisteredPeerInfo_eq_some_iff (hs : wallet.settlement = some settlement)
    (hv : run.Valid) (h : rpc.Honest settlement base64Decode run.ledger)
    {info : RegisteredPeerInfo} :
    wallet.getRegisteredPeerInfo base64Decode rpc = .ok (some info) ↔
      ∃ p ∈ run.ledger.peers, p.suiAddress = wallet.address ∧ rpc.Finds settlement p ∧
        readPeerInfo base64Decode rpc (objectKey p.id) = .ok info := by
  have hreads : wallet.getRegisteredPeerInfo base64Decode rpc = .ok (some info) ↔
      ∃ key, wallet.findPeerObject rpc = .ok (some key) ∧
        readPeerInfo base64Decode rpc key = .ok info := by
    rw [ZingWallet.getRegisteredPeerInfo]
    rcases wallet.findPeerObject rpc with e | - | key
    · simp
    · simp
    · rcases hread : readPeerInfo base64Decode rpc key with e | info' <;>
        simp [hread, Except.map]
  rw [hreads]
  constructor
  · rintro ⟨key, hfind, hread⟩
    obtain ⟨p, hp, haddress, hclient, hlists, rfl⟩ :=
      (findPeerObject_eq_some_iff hs hv h).mp hfind
    obtain ⟨object, version, hobject, -, -⟩ := (readPeerInfo_eq_ok_iff h hp).mp hread
    exact ⟨p, hp, haddress, ⟨hclient, hlists, object, hobject⟩, hread⟩
  · rintro ⟨p, hp, haddress, hfinds, hread⟩
    exact ⟨_, (findPeerObject_eq_some_iff hs hv h).mpr
      ⟨p, hp, haddress, hfinds.client, hfinds.listed, rfl⟩, hread⟩

/-- The steps before the submission succeed. -/
structure WriteOutcome.Ready (w : WriteOutcome) : Prop where
  client : w.client = .ok ()
  build : w.build = .ok ()
  sign : w.sign = .ok ()

theorem WriteOutcome.ready_iff {w : WriteOutcome} (hclient : w.client = .ok ()) :
    w.Ready ↔ w.build = .ok () ∧ w.sign = .ok () :=
  ⟨fun h => ⟨h.build, h.sign⟩, fun h => ⟨hclient, h.1, h.2⟩⟩

theorem WriteOutcome.not_ready {w : WriteOutcome} {e : String} (hclient : w.client = .error e) :
    ¬w.Ready := by
  intro hready
  cases hclient.symm.trans hready.client

/-- A transaction is submitted once it is built and signed, whatever its execution does. -/
theorem submitWith_tx_iff {tx tx' : StakingTransaction} {buildText executeText : String}
    {w : WriteOutcome} :
    (tx.submitWith buildText executeText w).tx = some tx' ↔
      w.build = .ok () ∧ w.sign = .ok () ∧ tx = tx' := by
  rw [StakingTransaction.submitWith]
  rcases w.build with e | ⟨⟩
  · simp [Submission.unsent]
  rcases w.sign with e | ⟨⟩
  · simp [Submission.unsent]
  rcases w.execute with e | ⟨⟩ <;> simp

/-- **What `register_peer` submits.** -/
theorem registerPeer_tx_iff (hs : wallet.settlement = some settlement) {peerIdBytes : Bytes}
    {w : WriteOutcome} {tx : StakingTransaction} :
    (wallet.registerPeer lib peerIdBytes w).tx = some tx ↔ w.Ready ∧
      settlement.buildRegisterTransaction lib wallet.address peerIdBytes 1000000000 = some tx := by
  rw [ZingWallet.registerPeer, hs]
  rcases hclient : w.client with e | ⟨⟩
  · simp [WriteOutcome.not_ready hclient, Submission.unsent]
  rcases hbuilt : settlement.buildRegisterTransaction lib wallet.address peerIdBytes 1000000000
    with - | tx'
  · simp [hbuilt]
  · simp [hbuilt, WriteOutcome.ready_iff hclient, submitWith_tx_iff, and_assoc]

/-- **What `update_peer_id` submits**: an update of the peer that was read, when its peer id
is another one. -/
theorem updatePeerId_tx_iff (hs : wallet.settlement = some settlement) {newPeerIdBytes : Bytes}
    {w : WriteOutcome} {tx : StakingTransaction} :
    (wallet.updatePeerId lib base64Decode newPeerIdBytes rpc w).tx = some tx ↔ w.Ready ∧
      ∃ info peerObjAddr, wallet.getRegisteredPeerInfo base64Decode rpc = .ok (some info) ∧
        info.peerIdBytes ≠ newPeerIdBytes ∧
        lib.parseAddress info.peerObjectId = .ok peerObjAddr ∧
        settlement.buildUpdatePeerIdTransaction wallet.address peerObjAddr
          info.initialSharedVersion newPeerIdBytes = tx := by
  rw [ZingWallet.updatePeerId, hs]
  rcases hinfo : wallet.getRegisteredPeerInfo base64Decode rpc with e | - | info
  · simp [Submission.unsent]
  · simp [Submission.unsent]
  by_cases heq : info.peerIdBytes = newPeerIdBytes
  · simp [heq, Submission.unsent]
  rcases hclient : w.client with e | ⟨⟩
  · simp [heq, WriteOutcome.not_ready hclient, Submission.unsent]
  rcases hparse : lib.parseAddress info.peerObjectId with e | peerObjAddr
  · simp [heq, hparse, Submission.unsent]
  · simp [heq, hparse, WriteOutcome.ready_iff hclient, submitWith_tx_iff, and_assoc]

/-- The submitted transaction, with its sender, is the call `c` of the contract. -/
def Submission.Calls (s : Submission) (sender : Address) (c : StakingCall) : Prop :=
  ∃ tx, s.tx = some tx ∧ tx.sender = sender ∧ tx.call? = some c

theorem registerPeer_calls_iff (hs : wallet.settlement = some settlement)
    (hcoin : (lib.structTagFromStr settlement.walCoinType).isSome) {peerIdBytes : Bytes}
    {w : WriteOutcome} {sender : Address} {c : StakingCall} :
    (wallet.registerPeer lib peerIdBytes w).Calls sender c ↔
      w.Ready ∧ sender = wallet.address ∧ c = .register peerIdBytes 1000000000 := by
  obtain ⟨tag, htag⟩ := Option.isSome_iff_exists.mp hcoin
  simp only [Submission.Calls, registerPeer_tx_iff hs, SettlementConfig.buildRegisterTransaction,
    htag, Option.map_some]
  constructor
  · rintro ⟨tx, ⟨hready, htx⟩, hsender, hcall⟩
    obtain rfl := Option.some.inj htx
    exact ⟨hready, hsender.symm, (Option.some.inj hcall).symm⟩
  · rintro ⟨hready, rfl, rfl⟩
    exact ⟨_, ⟨hready, rfl⟩, rfl, rfl⟩

/-- The call of an update: it is for the peer that the reads find, unless that has the peer
id already. -/
theorem updatePeerId_calls_iff (hs : wallet.settlement = some settlement) (hv : run.Valid)
    (h : rpc.Honest settlement base64Decode run.ledger)
    (howner : ∀ p ∈ run.ledger.peers, ∀ object,
      rpc.getObject (objectKey p.id) = .ok (some object) →
        ∃ version, object.owner = some (some version))
    (hparse : ∀ p ∈ run.ledger.peers, lib.parseAddress (objectKey p.id) = .ok p.id.bytes)
    {newPeerIdBytes : Bytes} {w : WriteOutcome} {sender : Address} {c : StakingCall} :
    (wallet.updatePeerId lib base64Decode newPeerIdBytes rpc w).Calls sender c ↔
      w.Ready ∧ sender = wallet.address ∧
        ∃ p ∈ run.ledger.peers, p.suiAddress = wallet.address ∧ p.peerId ≠ newPeerIdBytes ∧
          rpc.Finds settlement p ∧ c = .updatePeerId p.id newPeerIdBytes := by
  simp only [Submission.Calls, updatePeerId_tx_iff hs, getRegisteredPeerInfo_eq_some_iff hs hv h]
  constructor
  · rintro ⟨tx, ⟨hready, info, addr, ⟨p, hp, haddress, hfinds, hread⟩, hne, hparsed, rfl⟩,
      hsender, hcall⟩
    obtain ⟨object, version, -, -, rfl⟩ := (readPeerInfo_eq_ok_iff h hp).mp hread
    obtain rfl := Except.ok.inj ((hparse p hp).symm.trans hparsed)
    exact ⟨hready, hsender.symm, p, hp, haddress, hne, hfinds, (Option.some.inj hcall).symm⟩
  · rintro ⟨hready, rfl, p, hp, haddress, hne, hfinds, rfl⟩
    obtain ⟨object, hobject⟩ := hfinds.object
    obtain ⟨version, hversion⟩ := howner p hp object hobject
    have hread := (readPeerInfo_eq_ok_iff h hp).mpr ⟨object, version, hobject, hversion, rfl⟩
    exact ⟨_, ⟨hready, _, _, ⟨p, hp, haddress, hfinds, hread⟩, hne, hparse p hp, rfl⟩, rfl, rfl⟩

end Wallet

/-! ### What the contract rejects -/

theorem register_eq_alreadyRegistered_iff {peers : List (Address × ID)} {ctx : TxContext}
    (peerId : Bytes) (bond : ℕ) :
    register peers peerId bond ctx = .error (.code ebAlreadyRegistered) ↔
      ctx.sender ∈ peers.map Prod.fst := by
  refine ⟨fun h => ?_, fun hmem => register_of_mem hmem peerId bond⟩
  by_contra hnew
  by_cases hbond : minStake ≤ bond
  · cases h.symm.trans (register_eq_ok_iff.mpr ⟨hnew, hbond, rfl⟩)
  · rw [register, require_of hnew, bind_ok, require_of_not hbond, bind_error] at h
    cases h

/-- The contract rejects a registration as a second one exactly for a sender in the
registry. -/
theorem submit_register_rejected_iff {l : StakingLedger} {ctx : TxContext} {peerId : Bytes}
    {bond : ℕ} :
    l.submit ctx (.register peerId bond) = .error (.aborted (.code ebAlreadyRegistered)) ↔
      ctx.freshId ∉ l.ids ∧ bond ≤ u64Max ∧ ctx.sender ∈ l.registry.map Prod.fst := by
  rw [StakingLedger.submit, ← register_eq_alreadyRegistered_iff peerId bond]
  by_cases hfresh : ctx.freshId ∉ l.ids
  · by_cases hfits : bond ≤ u64Max
    · rcases register l.registry peerId bond ctx with a | out <;>
        simp [available, hfresh, hfits, call]
    · simp [available, hfresh, hfits]
  · simp [available, hfresh]

/-- The owner of a peer can always update its peer id. -/
theorem exists_submit_updatePeerId {l : StakingLedger} {p : Peer}
    (hp : l.peer? p.id = some p) (freshId : ID) (newPeerId : Bytes) :
    ∃ l', l.submit ⟨p.suiAddress, freshId⟩ (.updatePeerId p.id newPeerId) = .ok l' := by
  have hupdate : updatePeerId p newPeerId ⟨p.suiAddress, freshId⟩ = .ok _ :=
    updatePeerId_eq_ok_iff.mpr ⟨rfl, rfl⟩
  simp only [StakingLedger.submit, hp, input, bind_ok, hupdate, call]
  exact ⟨_, rfl⟩

/-! ### Reconciling -/

section Reconciling

variable (wallet : ZingWallet) (settlement : SettlementConfig) (lib : Externals PeerId)
  (base64Decode : String → Except String Bytes) (l : StakingLedger) (reads : RegistryReads)
  (peerIdBytes : Bytes)

/-- Both rounds of reads answer what is on chain. -/
structure RegistryReads.Honest : Prop where
  lookup : reads.lookup.Honest settlement base64Decode l
  info : reads.info.Honest settlement base64Decode l
  -- only the second round asks for the owner
  owner : ∀ p ∈ l.peers, ∀ object, reads.info.getObject (objectKey p.id) = .ok (some object) →
    ∃ version, object.owner = some (some version)

/-- The wallet's peer is registered with another peer id, and both rounds of reads of it
succeed. -/
structure Mismatched (p : Peer) : Prop where
  mem : p ∈ l.peers
  address : p.suiAddress = wallet.address
  peerId : p.peerId ≠ peerIdBytes
  lookup : reads.lookup.Finds settlement p
  info : reads.info.Finds settlement p

/-- The registry is reconciled with the node's peer id, whatever becomes of the transaction:
the node registers only an address outside of the registry, it updates the peer id exactly
of a mismatched peer, and the contract rejects nothing as a second registration. -/
structure Reconciles : Prop where
  registers_new : ∀ w sender peerId bond,
    (wallet.ensurePeerRegistered lib base64Decode peerIdBytes reads w).Calls sender
      (.register peerId bond) → wallet.address ∉ l.registry.map Prod.fst
  updates_iff : ∀ w sender id newPeerId,
    (wallet.ensurePeerRegistered lib base64Decode peerIdBytes reads w).Calls sender
      (.updatePeerId id newPeerId) ↔ w.Ready ∧ sender = wallet.address ∧ newPeerId = peerIdBytes ∧
        ∃ p, Mismatched wallet settlement l reads peerIdBytes p ∧ p.id = id
  not_rejected : ∀ w sender c freshId,
    (wallet.ensurePeerRegistered lib base64Decode peerIdBytes reads w).Calls sender c →
      l.submit ⟨sender, freshId⟩ c ≠ .error (.aborted (.code ebAlreadyRegistered))

variable {wallet settlement lib base64Decode l reads peerIdBytes}

theorem ensurePeerRegistered_of_true (h : wallet.isPeerRegistered reads.lookup = .ok true)
    (w : WriteOutcome) :
    wallet.ensurePeerRegistered lib base64Decode peerIdBytes reads w
      = wallet.updatePeerId lib base64Decode peerIdBytes reads.info w := by
  rw [ZingWallet.ensurePeerRegistered, h]

/-- Every other answer of the lookup, also a failure, registers. -/
theorem ensurePeerRegistered_of_ne_true (h : wallet.isPeerRegistered reads.lookup ≠ .ok true)
    (w : WriteOutcome) :
    wallet.ensurePeerRegistered lib base64Decode peerIdBytes reads w
      = wallet.registerPeer lib peerIdBytes w := by
  rw [ZingWallet.ensurePeerRegistered]
  rcases hlookup : wallet.isPeerRegistered reads.lookup with e | - | -
  · rfl
  · rfl
  · exact absurd hlookup h

variable {run : StakingRun}

/-- An address outside of the registry is registered, and nothing else is done. -/
theorem reconciles_of_unregistered (hs : wallet.settlement = some settlement) (hv : run.Valid)
    (hreads : reads.Honest settlement base64Decode run.ledger)
    (hcoin : (lib.structTagFromStr settlement.walCoinType).isSome)
    (hnew : wallet.address ∉ run.ledger.registry.map Prod.fst) :
    Reconciles wallet settlement lib base64Decode run.ledger reads peerIdBytes := by
  have hnone : ∀ p ∈ run.ledger.peers, p.suiAddress ≠ wallet.address := by
    intro p hp haddress
    rw [hv.registry_keys] at hnew
    exact hnew (haddress ▸ List.mem_map_of_mem hp)
  have hlookup : wallet.isPeerRegistered reads.lookup ≠ .ok true := by
    intro htrue
    obtain ⟨p, hp, haddress, -, -⟩ := (isPeerRegistered_eq_true_iff hs hv hreads.lookup).mp htrue
    exact hnone p hp haddress
  have hcalls : ∀ w sender c,
      (wallet.ensurePeerRegistered lib base64Decode peerIdBytes reads w).Calls sender c ↔
        w.Ready ∧ sender = wallet.address ∧ c = .register peerIdBytes 1000000000 := by
    intro w sender c
    rw [ensurePeerRegistered_of_ne_true hlookup, registerPeer_calls_iff hs hcoin]
  refine ⟨fun _ _ _ _ _ => hnew, fun w sender id newPeerId => ⟨fun h => ?_, ?_⟩,
    fun w sender c freshId h hrejected => ?_⟩
  · cases ((hcalls ..).mp h).2.2
  · rintro ⟨-, -, -, p, hp, -⟩
    exact absurd hp.address (hnone p hp.mem)
  · obtain ⟨-, rfl, rfl⟩ := (hcalls ..).mp h
    exact hnew (submit_register_rejected_iff.mp hrejected).2.2

/-- A peer that the lookup reads as active has its peer id updated when it differs, and is
not registered again. -/
theorem reconciles_of_active (hs : wallet.settlement = some settlement) (hv : run.Valid)
    (hreads : reads.Honest settlement base64Decode run.ledger)
    (hparse : ∀ p ∈ run.ledger.peers, lib.parseAddress (objectKey p.id) = .ok p.id.bytes)
    {p : Peer} (hp : p ∈ run.ledger.peers) (haddress : p.suiAddress = wallet.address)
    (hfinds : reads.lookup.Finds settlement p) (hactive : p.isActive = true) :
    Reconciles wallet settlement lib base64Decode run.ledger reads peerIdBytes := by
  have hlookup : wallet.isPeerRegistered reads.lookup = .ok true :=
    (isPeerRegistered_eq_true_iff hs hv hreads.lookup).mpr ⟨p, hp, haddress, hfinds, hactive⟩
  have hcalls : ∀ w sender c,
      (wallet.ensurePeerRegistered lib base64Decode peerIdBytes reads w).Calls sender c ↔
        w.Ready ∧ sender = wallet.address ∧
          ∃ q, Mismatched wallet settlement run.ledger reads peerIdBytes q ∧
            c = .updatePeerId q.id peerIdBytes := by
    intro w sender c
    rw [ensurePeerRegistered_of_true hlookup,
      updatePeerId_calls_iff hs hv hreads.info hreads.owner hparse]
    refine and_congr_right fun _ => and_congr_right fun _ => ⟨?_, ?_⟩
    · rintro ⟨q, hq, hqaddress, hne, hinfo, hc⟩
      -- the lookup found the wallet's only peer
      obtain rfl := KeyedList.eq_of_key_eq hv.addresses_nodup hq hp
        (hqaddress.trans haddress.symm)
      exact ⟨q, ⟨hq, hqaddress, hne, hfinds, hinfo⟩, hc⟩
    · rintro ⟨q, hq, hc⟩
      exact ⟨q, hq.mem, hq.address, hq.peerId, hq.info, hc⟩
  refine ⟨fun w sender peerId bond h => ?_, fun w sender id newPeerId => ?_,
    fun w sender c freshId h hrejected => ?_⟩
  · obtain ⟨-, -, q, -, hc⟩ := (hcalls ..).mp h
    cases hc
  · rw [hcalls]
    refine and_congr_right fun _ => and_congr_right fun _ => ⟨?_, ?_⟩
    · rintro ⟨q, hq, hc⟩
      obtain ⟨rfl, rfl⟩ := StakingCall.updatePeerId.inj hc
      exact ⟨rfl, q, hq, rfl⟩
    · rintro ⟨rfl, q, hq, rfl⟩
      exact ⟨q, hq, rfl⟩
  · obtain ⟨-, rfl, q, hq, rfl⟩ := (hcalls ..).mp h
    have hpeer : run.ledger.peer? q.id = some q := KeyedList.lookup_of_mem hv.ids_nodup hq.mem
    obtain ⟨l', haccepted⟩ := exists_submit_updatePeerId hpeer freshId peerIdBytes
    rw [← hq.address, haccepted] at hrejected
    cases hrejected

/-- **When the node reconciles the registry with its peer id**: its address is not in the
registry, or the lookup finds its peer and that is active. A deactivated peer and a peer
whose entry or object is not read are registered a second time. -/
theorem registration_reconciles_iff (hs : wallet.settlement = some settlement)
    (hrun : run.Reachable) (hreads : reads.Honest settlement base64Decode run.ledger)
    (hcoin : (lib.structTagFromStr settlement.walCoinType).isSome)
    (hparse : ∀ p ∈ run.ledger.peers, lib.parseAddress (objectKey p.id) = .ok p.id.bytes) :
    Reconciles wallet settlement lib base64Decode run.ledger reads peerIdBytes ↔
      wallet.address ∉ run.ledger.registry.map Prod.fst ∨
        ∃ p ∈ run.ledger.peers, p.suiAddress = wallet.address ∧
          reads.lookup.Finds settlement p ∧ p.isActive = true := by
  have hv := StakingRun.valid_of_reachable hrun
  constructor
  · intro h
    by_cases hlookup : wallet.isPeerRegistered reads.lookup = .ok true
    · exact .inr ((isPeerRegistered_eq_true_iff hs hv hreads.lookup).mp hlookup)
    · let w : WriteOutcome := ⟨.ok (), .ok (), .ok (), .ok ()⟩
      refine .inl (h.registers_new w wallet.address peerIdBytes 1000000000 ?_)
      rw [ensurePeerRegistered_of_ne_true hlookup, registerPeer_calls_iff hs hcoin]
      exact ⟨⟨rfl, rfl, rfl⟩, rfl, rfl⟩
  · rintro (hnew | ⟨p, hp, haddress, hfinds, hactive⟩)
    · exact reconciles_of_unregistered hs hv hreads hcoin hnew
    · exact reconciles_of_active hs hv hreads hparse hp haddress hfinds hactive

end Reconciling

/-! ### A peer, active and deactivated -/

/-- The base64 decoder, on the text of the one byte 1. -/
def sampleBase64Decode (s : String) : Except String Bytes :=
  if s = "AQ==" then .ok [1] else .error "invalid base64"

/-- The wallet's peer, with the id `[1]`. -/
def samplePeer (isActive : Bool) : Peer :=
  ⟨sampleId 1, [1], sampleAddress 5, 1000000000, isActive⟩

/-- The wallet registers. -/
def registeredRun : StakingRun :=
  StakingRun.runOf (sampleAddress 9)
    [(⟨sampleAddress 5, sampleId 1⟩, .register [1] 1000000000)]

/-- The wallet registers, and the admin deactivates its peer. -/
def deactivatedRun : StakingRun :=
  StakingRun.runOf (sampleAddress 9)
    [(⟨sampleAddress 5, sampleId 1⟩, .register [1] 1000000000),
      (⟨sampleAddress 9, sampleId 2⟩, .deactivate (sampleId 1))]

/-- The entry of the wallet in the registry as listed. -/
def samplePeerEntry : DynamicField where
  childId := none
  value := some (some (sampleId 1).bytes.bytes.toList)
  name := some (some (sampleAddress 5).bytes.toList)

/-- The fields of the wallet's peer as read. -/
def samplePeerFields (isActive : Bool) : List (String × Option FieldKind) :=
  [("peer_id", some (.stringValue "AQ==")), ("is_active", some (.boolValue isActive))]

/-- Every read of the wallet's peer succeeds. -/
def sampleAnswers (isActive : Bool) : RpcAnswers where
  client := .ok ()
  listDynamicFields _ := [.ok samplePeerEntry]
  getObject _ := .ok (some ⟨some (some (.structValue (samplePeerFields isActive))), some (some 7)⟩)

theorem sampleAnswers_honest {l : StakingLedger} {isActive : Bool}
    (hpeers : l.peers = [samplePeer isActive])
    (hregistry : l.registry = [(sampleAddress 5, sampleId 1)]) :
    (sampleAnswers isActive).Honest sampleSettlement sampleBase64Decode l := by
  constructor
  · intro df hdf
    obtain rfl := Except.ok.inj (List.mem_singleton.mp hdf)
    exact ⟨_, hregistry ▸ List.mem_singleton_self _, rfl, rfl, rfl⟩
  · intro p hp object hobject
    obtain rfl := Option.some.inj (Except.ok.inj hobject)
    rw [hpeers, List.mem_singleton] at hp
    subst hp
    exact ⟨samplePeerFields isActive, rfl, rfl, "AQ==", rfl, rfl⟩

/-- Both rounds of reads succeed. -/
def sampleReads (isActive : Bool) : RegistryReads :=
  ⟨sampleAnswers isActive, sampleAnswers isActive⟩

theorem sampleReads_honest {l : StakingLedger} {isActive : Bool}
    (hpeers : l.peers = [samplePeer isActive])
    (hregistry : l.registry = [(sampleAddress 5, sampleId 1)]) :
    (sampleReads isActive).Honest sampleSettlement sampleBase64Decode l := by
  refine ⟨sampleAnswers_honest hpeers hregistry, sampleAnswers_honest hpeers hregistry, ?_⟩
  intro p _ object hobject
  obtain rfl := Option.some.inj (Except.ok.inj hobject)
  exact ⟨7, rfl⟩

theorem registeredRun_peers : registeredRun.ledger.peers = [samplePeer true] := by decide

theorem registration_reconciles_registered :
    Reconciles payingWallet sampleSettlement sampleExternals sampleBase64Decode
      registeredRun.ledger (sampleReads true) [2] := by
  have hmem : samplePeer true ∈ registeredRun.ledger.peers :=
    registeredRun_peers ▸ List.mem_singleton_self _
  have hreach : registeredRun.Reachable := StakingRun.reachable_runOf _ _
  have hparse : ∀ p ∈ registeredRun.ledger.peers,
      sampleExternals.parseAddress (objectKey p.id) = .ok p.id.bytes := by
    intro p hp
    rw [registeredRun_peers, List.mem_singleton] at hp
    subst hp
    rfl
  exact (registration_reconciles_iff rfl hreach
    (sampleReads_honest registeredRun_peers (by decide)) rfl hparse).mpr
    (.inr ⟨samplePeer true, hmem, rfl, ⟨rfl, ⟨samplePeerEntry, List.mem_singleton_self _,
      rfl, rfl, rfl⟩, _, rfl⟩, rfl⟩)

/-- **A second registration**: the admin deactivated the wallet's peer, every read succeeds,
and the node submits a registration that the contract rejects. -/
theorem not_reconciles_deactivated :
    deactivatedRun.Reachable ∧
      (sampleReads false).Honest sampleSettlement sampleBase64Decode deactivatedRun.ledger ∧
      (∃ tx, (payingWallet.ensurePeerRegistered sampleExternals sampleBase64Decode [1]
          (sampleReads false) ⟨.ok (), .ok (), .ok (), .error "abort"⟩).tx = some tx ∧
        tx.call? = some (.register [1] 1000000000) ∧
        deactivatedRun.ledger.submit ⟨tx.sender, sampleId 3⟩ (.register [1] 1000000000)
          = .error (.aborted (.code ebAlreadyRegistered))) ∧
      ¬Reconciles payingWallet sampleSettlement sampleExternals sampleBase64Decode
        deactivatedRun.ledger (sampleReads false) [1] := by
  refine ⟨StakingRun.reachable_runOf _ _, sampleReads_honest (by decide) (by decide),
    ⟨_, rfl, rfl, by decide⟩, fun h => ?_⟩
  exact h.not_rejected ⟨.ok (), .ok (), .ok (), .error "abort"⟩ (sampleAddress 5) _ (sampleId 3)
    ⟨_, rfl, rfl, rfl⟩ (by decide)

end ZingCdn
