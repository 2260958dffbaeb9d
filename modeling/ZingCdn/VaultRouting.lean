import ZingCdn.PaymentErrors

/-!
# Whose Vault Is Paid

`pay` on chain takes any vault with any payee, so the choice of the vault is the wallet's.
It joins the listing of the `peer_vaults` table with the recipient's address as a
hexadecimal key, and falls back to the vault of its own configuration when the recipient is
not in the listing. An entry is missing from the listing when its stream item or the read of
its object failed, or when the recipient has no vault at all.

Here the key is taken away: hexadecimal is injective, so the chosen vault is the last one
read for a table entry that names the recipient's 32 bytes (`recipientVaults`). What the
chain knows, the peer address of each vault object, is a parameter.

## Main results

* `getVaultForRecipient_eq_ok_iff`: the chosen vault, from the raw listing.
* `payment_routed_iff`: when every submitted payment reaches a vault of the recipient.
* `not_payment_routed`: a payment into the payer's own vault.
-/

namespace ZingCdn

variable {PeerId : Type}

/-! ### Keys -/

theorem addressKey_inj {xs ys : Bytes} : addressKey xs = addressKey ys ↔ xs = ys := by
  refine ⟨fun h => hexEncode_injective ?_, congrArg addressKey⟩
  have hlist := congrArg String.toList h
  simp only [addressKey, String.toList_append] at hlist
  exact String.toList_inj.mp (List.append_cancel_left hlist)

/-! ### The listing without keys -/

/-- The peer of a table entry, as bytes. -/
def DynamicField.peerBytes (df : DynamicField) : Option Bytes :=
  df.name.join.bind fun bytes => if bytes.length < 32 then none else some (bytes.take 32)

/-- The peer and vault of each entry that has both. -/
def namedVaults (items : List (Except String DynamicField)) : List (Bytes × String) :=
  items.filterMap fun
    | .ok df => do
        let vaultId ← df.vaultId
        let peer ← df.peerBytes
        some (peer, vaultId)
    | .error _ => none

/-- The vault in an object read. -/
def readVault (vaultId : String) : ObjectResult → Option PeerVaultInfo
  | .object (some json) => parseVaultJson json vaultId
  | _ => none

/-- The vaults read for the entries that name the recipient, in the order of the table. -/
def recipientVaults (recipient : Address) (o : VaultListing) : List PeerVaultInfo :=
  match o.objects with
  | .error _ => []
  | .ok results => ((namedVaults o.fields).zip results).filterMap fun (entry, r) =>
      if entry.1 = recipient.bytes.toList then readVault entry.2 r else none

/-- The vaults are listed: the client is there, and the objects are read unless no entry
needs them. -/
structure VaultListing.Readable (o : VaultListing) : Prop where
  client : o.client = .ok ()
  objects : namedVaults o.fields ≠ [] → ∃ results, o.objects = .ok results

theorem addrToVaultId_eq (items : List (Except String DynamicField)) :
    addrToVaultId items = (namedVaults items).map (Prod.map addressKey id) := by
  rw [addrToVaultId, namedVaults, List.map_filterMap]
  refine List.filterMap_congr fun item _ => ?_
  cases item with
  | error e => rfl
  | ok df =>
      cases hid : df.vaultId with
      | none => simp [hid]
      | some vaultId =>
          cases hname : df.name.join with
          | none => simp [hid, DynamicField.peer, DynamicField.peerBytes, hname]
          | some bytes =>
              by_cases hlen : bytes.length < 32 <;>
                simp [hid, DynamicField.peer, DynamicField.peerBytes, hname, hlen]

theorem listedVault_eq (entry : String × String) (r : ObjectResult) :
    listedVault entry r = (readVault entry.2 r).map (entry.1, ·) := by
  rcases r with (- | json) | - | - <;> rfl

/-- The later of two entries with one key counts. -/
theorem mapGet_eq_getLast? (pairs : List (String × PeerVaultInfo)) (key : String) :
    mapGet pairs key = ((pairs.filter fun p => p.1 = key).map Prod.snd).getLast? := by
  rw [mapGet, ← List.head?_filter, List.filter_reverse, List.head?_reverse, List.getLast?_map]

/-- The lookup by key finds the last vault read for the recipient. -/
theorem mapGet_listed (recipient : Address) (named : List (Bytes × String))
    (results : List ObjectResult) :
    mapGet (((named.map (Prod.map addressKey id)).zip results).filterMap
        fun (entry, r) => listedVault entry r) (addressKey recipient.bytes.toList)
      = ((named.zip results).filterMap fun (entry, r) =>
          if entry.1 = recipient.bytes.toList then readVault entry.2 r else none).getLast? := by
  rw [mapGet_eq_getLast?, List.zip_map_left, List.filterMap_map, List.filter_filterMap,
    List.map_filterMap]
  refine congrArg _ (List.filterMap_congr fun ⟨entry, r⟩ _ => ?_)
  have hkey : addressKey entry.1 = addressKey recipient.bytes.toList ↔
      entry.1 = recipient.bytes.toList := addressKey_inj
  by_cases hnamed : entry.1 = recipient.bytes.toList
  · cases hread : readVault entry.2 r <;>
      simp [listedVault_eq, hread, hnamed]
  · cases hread : readVault entry.2 r <;>
      simp [listedVault_eq, hread, hkey, hnamed]

section Wallet

variable {wallet : ZingWallet} {settlement : SettlementConfig} {lib : Externals PeerId}
  {recipient : Address}

/-- Listing the vaults, when it succeeds. -/
theorem listPeerVaults_eq_ok_iff (hs : wallet.settlement = some settlement) {o : VaultListing}
    {vaults : List (String × PeerVaultInfo)} :
    wallet.listPeerVaults o = .ok vaults ↔ o.Readable ∧
      vaults = match o.objects with
        | .error _ => []
        | .ok results => (((namedVaults o.fields).map (Prod.map addressKey id)).zip
            results).filterMap fun (entry, r) => listedVault entry r := by
  obtain ⟨client, fields, objects⟩ := o
  rw [ZingWallet.listPeerVaults, hs]
  rcases client with e | u
  · refine ⟨by rintro ⟨⟩, fun ⟨hr, _⟩ => absurd hr.client (by simp)⟩
  have hreadable : VaultListing.Readable ⟨.ok u, fields, objects⟩ ↔
      (namedVaults fields ≠ [] → ∃ results, objects = .ok results) :=
    ⟨fun hr => hr.objects, fun ho => ⟨rfl, ho⟩⟩
  rw [hreadable]
  simp only [addrToVaultId_eq]
  have hok : ∀ l : List (String × PeerVaultInfo),
      (.ok l : ZingResult (List (String × PeerVaultInfo))) = .ok vaults ↔ vaults = l :=
    fun l => by rw [Except.ok.injEq, eq_comm]
  by_cases hempty : namedVaults fields = []
  · rcases objects with e | results <;> simp [hempty, hok]
  · rcases objects with e | results <;> simp [hempty, hok]

/-- **The vault that is chosen**: the last one read for the recipient, and without one the
configured vault. -/
theorem getVaultForRecipient_eq_ok_iff (hs : wallet.settlement = some settlement)
    {o : VaultListing} {vault : Address} :
    wallet.getVaultForRecipient lib recipient o = .ok vault ↔ o.Readable ∧
      ((∃ info, (recipientVaults recipient o).getLast? = some info ∧
          lib.parseAddress info.vaultObjectId = .ok vault) ∨
        (recipientVaults recipient o = [] ∧ settlement.vaultObjectId = some vault)) := by
  have hget : ∀ {vaults}, wallet.listPeerVaults o = .ok vaults →
      mapGet vaults (addressKey recipient.bytes.toList)
        = (recipientVaults recipient o).getLast? := by
    intro vaults hvaults
    obtain ⟨-, rfl⟩ := (listPeerVaults_eq_ok_iff hs).mp hvaults
    rw [recipientVaults]
    split
    · rfl
    · exact mapGet_listed recipient _ _
  rw [ZingWallet.getVaultForRecipient]
  rcases hlist : wallet.listPeerVaults o with e | vaults
  · refine ⟨by rintro ⟨⟩, fun ⟨hr, _⟩ => ?_⟩
    have := (listPeerVaults_eq_ok_iff hs (o := o)).mpr ⟨hr, rfl⟩
    rw [hlist] at this
    cases this
  have hr := ((listPeerVaults_eq_ok_iff hs).mp hlist).1
  simp only [hget hlist]
  rcases hlast : (recipientVaults recipient o).getLast? with - | info
  · have hnil := List.getLast?_eq_none_iff.mp hlast
    rcases hconfig : settlement.vaultObjectId with - | configured <;> simp [hs, hr, hnil, hconfig]
  · have hne : recipientVaults recipient o ≠ [] := by
      rintro hnil
      rw [hnil] at hlast
      cases hlast
    rcases hparse : lib.parseAddress info.vaultObjectId with e | a <;>
      simp [hr, hne, hparse]

/-- What the attempt submits. -/
theorem payTransaction_eq_ok_iff {blobHash : Bytes32} {amount : ℕ} {o : OnchainOutcome}
    {tx : PayTransaction} :
    wallet.payTransaction lib settlement recipient blobHash amount o = some (.ok tx) ↔
      o.client = .ok () ∧ o.build = .ok () ∧ o.sign = .ok () ∧
        ∃ vault, wallet.getVaultForRecipient lib recipient o.listing = .ok vault ∧
          settlement.buildPayTransaction lib wallet.address recipient blobHash amount vault
            = some tx := by
  rw [ZingWallet.payTransaction]
  rcases o.client with e | ⟨⟩
  · simp
  rcases wallet.getVaultForRecipient lib recipient o.listing with e | vault
  · simp
  rcases htx : settlement.buildPayTransaction lib wallet.address recipient blobHash amount vault
    with - | tx'
  · simp [htx]
  rcases o.build with e | ⟨⟩
  · simp [htx]
  rcases o.sign with e | ⟨⟩
  · simp [htx]
  · simp [htx]

/-- Whatever the vault, the attempt gets to the submission: the RPC node is there, the
configured coin type parses, and the transaction is built and signed. -/
structure Submits (settlement : SettlementConfig) (lib : Externals PeerId)
    (o : OnchainOutcome) : Prop where
  client : o.client = .ok ()
  coinType : (lib.structTagFromStr settlement.walCoinType).isSome
  build : o.build = .ok ()
  sign : o.sign = .ok ()

/-- The built transaction names the vault. -/
theorem exists_buildPayTransaction
    (hcoin : (lib.structTagFromStr settlement.walCoinType).isSome)
    (sender recipient vault : Address) (blobHash : Bytes32) (amount : ℕ) :
    ∃ tx, settlement.buildPayTransaction lib sender recipient blobHash amount vault = some tx ∧
      tx.vault.objectId = vault := by
  obtain ⟨tag, htag⟩ := Option.isSome_iff_exists.mp hcoin
  rw [SettlementConfig.buildPayTransaction, htag]
  exact ⟨_, rfl, rfl⟩

theorem vault_of_buildPayTransaction {sender vault : Address} {blobHash : Bytes32} {amount : ℕ}
    {tx : PayTransaction}
    (htx : settlement.buildPayTransaction lib sender recipient blobHash amount vault = some tx) :
    (lib.structTagFromStr settlement.walCoinType).isSome ∧ tx.vault.objectId = vault := by
  obtain ⟨tag, htag, rfl⟩ := Option.map_eq_some_iff.mp htx
  exact ⟨htag ▸ rfl, rfl⟩

/-- **When payments reach the recipient's vault**, for the peer addresses `owner` of the
vault objects on chain: every submitted payment names a vault of the recipient if and only
if, whenever the attempt gets to the submission with a readable listing, the last vault
read for the recipient is its own, and without one so is the configured vault. -/
theorem payment_routed_iff (hs : wallet.settlement = some settlement)
    (owner : Address → Option Address) (blobHash : Bytes32) (amount : ℕ) (o : OnchainOutcome) :
    (∀ tx, wallet.payTransaction lib settlement recipient blobHash amount o = some (.ok tx) →
      owner tx.vault.objectId = some recipient) ↔
    (Submits settlement lib o → o.listing.Readable →
      (∀ info vault, (recipientVaults recipient o.listing).getLast? = some info →
        lib.parseAddress info.vaultObjectId = .ok vault → owner vault = some recipient) ∧
      (recipientVaults recipient o.listing = [] →
        ∀ vault, settlement.vaultObjectId = some vault → owner vault = some recipient)) := by
  constructor
  · intro hrouted hsub hread
    have hchosen : ∀ vault, wallet.getVaultForRecipient lib recipient o.listing = .ok vault →
        owner vault = some recipient := by
      intro vault hvault
      obtain ⟨tx, htx, hid⟩ := exists_buildPayTransaction hsub.coinType wallet.address recipient
        vault blobHash amount
      rw [← hid]
      exact hrouted tx (payTransaction_eq_ok_iff.mpr
        ⟨hsub.client, hsub.build, hsub.sign, vault, hvault, htx⟩)
    constructor
    · intro info vault hlast hparse
      exact hchosen vault ((getVaultForRecipient_eq_ok_iff hs).mpr
        ⟨hread, .inl ⟨info, hlast, hparse⟩⟩)
    · intro hnone vault hconfig
      exact hchosen vault ((getVaultForRecipient_eq_ok_iff hs).mpr ⟨hread, .inr ⟨hnone, hconfig⟩⟩)
  · intro hcondition tx htx
    obtain ⟨hclient, hbuild, hsign, vault, hvault, hbuilt⟩ := payTransaction_eq_ok_iff.mp htx
    obtain ⟨hcoin, hid⟩ := vault_of_buildPayTransaction hbuilt
    obtain ⟨hread, hcases⟩ := (getVaultForRecipient_eq_ok_iff hs).mp hvault
    obtain ⟨hlisted, hconfigured⟩ := hcondition ⟨hclient, hcoin, hbuild, hsign⟩ hread
    rw [hid]
    rcases hcases with ⟨info, hlast, hparse⟩ | ⟨hnone, hconfig⟩
    · exact hlisted info vault hlast hparse
    · exact hconfigured hnone vault hconfig

end Wallet

/-! ### Two payments -/

/-- A peer with a vault. -/
def paidPeer : Address := ⟨List.Vector.replicate 32 8⟩

/-- The table entry of the peer, with the vault `0x0101…01`. -/
def paidPeerEntry : DynamicField where
  childId := some (sampleExternals.addressText (List.replicate 32 1))
  value := none
  name := some (some (List.replicate 32 8))

/-- The peer's vault as read. -/
def paidPeerVault : JsonKind :=
  .structValue [("reserves", some (.stringValue "5")), ("total_shares", some (.stringValue "5")),
    ("commission_bps", some (.stringValue "1000")), ("peer_earnings", some (.stringValue "0"))]

/-- The vault `0x0101…01` is the peer's, and the payer's own is in its configuration. -/
def twoVaults (vault : Address) : Option Address :=
  if vault = ⟨List.Vector.replicate 32 1⟩ then some paidPeer
  else if sampleSettlement.vaultObjectId = some vault then some payingWallet.address
  else none

/-- The attempt with the given table entries. -/
def listedOutcome (fields : List (Except String DynamicField)) : OnchainOutcome :=
  { paidOutcome with
    listing := ⟨.ok (), fields, .ok [.object (some (some paidPeerVault))]⟩ }

/-- **A payment into the payer's own vault**: the peer has a vault, but the stream item with
its entry failed, and the transaction names the configured vault of the payer. -/
theorem not_payment_routed :
    ∃ tx, payingWallet.payTransaction paymentExternals sampleSettlement paidPeer
        (List.Vector.replicate 32 0) 1 (listedOutcome [.error "stream"]) = some (.ok tx) ∧
      twoVaults tx.vault.objectId = some payingWallet.address ∧
      payingWallet.address ≠ paidPeer :=
  ⟨_, rfl, by decide, by decide⟩

/-- The listing of the peer's entry yields the vault `0x0101…01`. -/
theorem recipientVaults_paidPeer :
    ∃ info, recipientVaults paidPeer (listedOutcome [.ok paidPeerEntry]).listing = [info] ∧
      paymentExternals.parseAddress info.vaultObjectId = .ok ⟨List.Vector.replicate 32 1⟩ :=
  ⟨_, rfl, rfl⟩

theorem payment_routed_paidPeer :
    ∃ tx, payingWallet.payTransaction paymentExternals sampleSettlement paidPeer
        (List.Vector.replicate 32 0) 1 (listedOutcome [.ok paidPeerEntry]) = some (.ok tx) ∧
      twoVaults tx.vault.objectId = some paidPeer := by
  obtain ⟨info, hvaults, hparse⟩ := recipientVaults_paidPeer
  have hsubmitted : ∃ tx, payingWallet.payTransaction paymentExternals sampleSettlement paidPeer
      (List.Vector.replicate 32 0) 1 (listedOutcome [.ok paidPeerEntry]) = some (.ok tx) :=
    ⟨_, rfl⟩
  obtain ⟨tx, htx⟩ := hsubmitted
  refine ⟨tx, htx, (payment_routed_iff rfl twoVaults _ _ _).mpr (fun _ _ => ⟨?_, ?_⟩) tx htx⟩
  · intro info' vault hlast hparse'
    rw [hvaults, List.getLast?_singleton] at hlast
    obtain rfl := Option.some.inj hlast
    rw [hparse] at hparse'
    cases hparse'
    decide
  · intro hnone
    rw [hvaults] at hnone
    cases hnone

end ZingCdn
