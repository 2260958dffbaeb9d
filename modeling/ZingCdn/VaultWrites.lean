import ZingCdn.Registration
import ZingCdn.Valuation
import ZingCdn.VaultRegistry

/-!
# The Wallet's Writes to the Vaults

A wallet opens its vault, claims the earnings of it, delegates into a vault and burns a
certificate. Each write submits one transaction with one call of `peer_vault`, and each learns
in another way which objects it names: `create_vault` from the configuration, `claim_earnings`
from the listing of all vaults, `delegate` from its caller, `undelegate` from the certificate,
which it reads.

Every vault is passed with one and the same version that it is shared from, the one in the
configuration.

## Main results

* `getMyVaultInfo_eq_ok_iff`: the wallet's own vault, whatever the order of the map.
* `claimEarnings_tx_iff`, `undelegate_tx_iff`, `createVault_tx_iff`, `delegate_tx_iff`: what
  each write submits.
-/

namespace ZingCdn

variable {PeerId : Type}

/-! ### The wallet's own vault -/

/-- `trim_start_matches("0x")`. -/
def trimStart0x : List Char → List Char
  | '0' :: 'x' :: rest => trimStart0x rest
  | cs => cs

/-- `trim_start_matches("0x").to_lowercase()`. No character outside of ASCII has a hexadecimal
digit as its lowercase, so for the comparison with a vault's key the ASCII letters are enough. -/
def normalizedAddress (s : String) : String :=
  String.ofList ((trimStart0x s.toList).map Char.toLower)

/-- The first vault on a walk of the map whose key is the address, up to prefix and case. -/
def vaultOfAddress (visited : List (String × PeerVaultInfo)) (address : String) :
    Option PeerVaultInfo :=
  visited.findSome? fun p =>
    if normalizedAddress p.1 = normalizedAddress address then some p.2 else none

/-- `get_my_vault_info`, with the text `{:#}` of an address. -/
def ZingWallet.getMyVaultInfo (self : ZingWallet) (alternate : Address → String)
    (o : VaultListing) (order : IterationOrder (String × PeerVaultInfo)) :
    ZingResult (Option PeerVaultInfo) :=
  match self.listPeerVaults o with
  | .error e => .error e
  | .ok vaults => .ok (vaultOfAddress (order.visit (mapEntries vaults)) (alternate self.address))

/-! ### The transactions -/

/-- The part of the settlement configuration that only `create_vault` uses. -/
structure VaultRegistryConfig where
  peerVaultRegistryId : Option Address
  peerVaultRegistryInitialSharedVersion : ℕ
deriving DecidableEq

/-- An owned object passed to a transaction. -/
structure OwnedInput where
  objectId : Address
  version : ℕ
  digest : Bytes32
deriving DecidableEq

/-- A transaction calling a function of `peer_vault`: on the registry or on a vault, with the
certificate or the coin of the call. -/
structure VaultTransaction where
  sender : Address
  package : Address
  moduleName : String
  function : String
  object : SharedInput
  cert : Option OwnedInput
  /-- the type and the amount of the coin the builder selects and splits -/
  coin : Option (StructTag × ℕ)
  gasBudget : ℕ
deriving DecidableEq

/-- The call of the contract in a transaction. -/
def VaultTransaction.call? (tx : VaultTransaction) : Option VaultCall :=
  if tx.moduleName = "peer_vault" ∧ tx.object.isMutable then
    match tx.function, tx.cert, tx.coin with
    | "new_vault", none, none => some .newVault
    | "claim_earnings", none, none => some (.claimEarnings ⟨tx.object.objectId⟩)
    | "delegate", none, some coin => some (.delegate ⟨tx.object.objectId⟩ coin.2)
    | "undelegate", some cert, none => some (.undelegate ⟨tx.object.objectId⟩ ⟨cert.objectId⟩)
    | _, _, _ => none
  else none

/-- What the four builders have in common. -/
def SettlementConfig.peerVaultTransaction (self : SettlementConfig) (sender : Address)
    (function : String) (object : SharedInput) (cert : Option OwnedInput)
    (coin : Option (StructTag × ℕ)) : VaultTransaction where
  sender
  package := self.packageId
  moduleName := "peer_vault"
  function
  object
  cert
  coin
  gasBudget := 5000000

/-- `SettlementConfig::build_create_vault_transaction`; there is none without a registry in
the configuration. -/
def SettlementConfig.buildCreateVaultTransaction (self : SettlementConfig)
    (vaults : VaultRegistryConfig) (sender : Address) : Option VaultTransaction :=
  vaults.peerVaultRegistryId.map fun registryId =>
    self.peerVaultTransaction sender "new_vault"
      ⟨registryId, vaults.peerVaultRegistryInitialSharedVersion, true⟩ none none

/-- `SettlementConfig::build_claim_earnings_transaction`. -/
def SettlementConfig.buildClaimEarningsTransaction (self : SettlementConfig) (sender : Address)
    (vaultObjId : Address) (vaultVersion : ℕ) : VaultTransaction :=
  self.peerVaultTransaction sender "claim_earnings" ⟨vaultObjId, vaultVersion, true⟩ none none

/-- `SettlementConfig::build_undelegate_transaction`. -/
def SettlementConfig.buildUndelegateTransaction (self : SettlementConfig) (sender : Address)
    (vaultObjId : Address) (vaultVersion : ℕ) (certObjId : Address) (certVersion : ℕ)
    (certDigest : Bytes32) : VaultTransaction :=
  self.peerVaultTransaction sender "undelegate" ⟨vaultObjId, vaultVersion, true⟩
    (some ⟨certObjId, certVersion, certDigest⟩) none

/-- `SettlementConfig::build_delegate_transaction`; `none` is the panic on a configured coin
type that does not parse. -/
def SettlementConfig.buildDelegateTransaction (self : SettlementConfig) (lib : Externals PeerId)
    (sender : Address) (vaultObjId : Address) (vaultVersion : ℕ) (amount : ℕ) :
    Option VaultTransaction :=
  (lib.structTagFromStr self.walCoinType).map fun tag =>
    self.peerVaultTransaction sender "delegate" ⟨vaultObjId, vaultVersion, true⟩ none
      (some (tag, amount))

/-! ### The writes -/

/-- The transaction a write submitted, if any, and its result; no result is a panic. -/
structure VaultSubmission where
  tx : Option VaultTransaction
  result : Option (ZingResult Unit)
deriving DecidableEq

/-- Nothing is submitted. -/
def VaultSubmission.failed (message : String) : VaultSubmission :=
  ⟨none, some (.error (.suiClient message))⟩

/-- The client, and what follows. -/
def withClient (w : WriteOutcome) (rest : VaultSubmission) : VaultSubmission :=
  match w.client with
  | .error e => .failed ("rpc: " ++ e)
  | .ok () => rest

/-- The end of the four writes: build, sign, submit and wait for the checkpoint. -/
def VaultTransaction.submitWith (tx : VaultTransaction) (name : String) (w : WriteOutcome) :
    VaultSubmission :=
  match w.build with
  | .error e => .failed ("build " ++ name ++ ": " ++ e)
  | .ok () =>
      match w.sign with
      | .error e => .failed ("sign: " ++ e)
      | .ok () =>
          match w.execute with
          | .error e => ⟨some tx, some (.error (.suiClient (name ++ " tx: " ++ e)))⟩
          | .ok () => ⟨some tx, some (.ok ())⟩

/-- `create_vault`. -/
def ZingWallet.createVault (self : ZingWallet) (vaults : VaultRegistryConfig)
    (w : WriteOutcome) : VaultSubmission :=
  match self.settlement with
  | none => .failed "settlement not configured"
  | some settlement =>
      match settlement.buildCreateVaultTransaction vaults self.address with
      | none => .failed "peer_vault_registry_id not set in config"
      | some tx => withClient w (tx.submitWith "create_vault" w)

/-- `claim_earnings`. -/
def ZingWallet.claimEarnings (self : ZingWallet) (lib : Externals PeerId)
    (alternate : Address → String) (o : VaultListing)
    (order : IterationOrder (String × PeerVaultInfo)) (w : WriteOutcome) : VaultSubmission :=
  match self.settlement with
  | none => .failed "settlement not configured"
  | some settlement =>
      match self.getMyVaultInfo alternate o order with
      | .error e => ⟨none, some (.error e)⟩
      | .ok none => .failed "no vault created"
      | .ok (some vaultInfo) =>
          match lib.parseAddress vaultInfo.vaultObjectId with
          | .error e => .failed ("parse vault id: " ++ e)
          | .ok vaultObjId =>
              let tx := settlement.buildClaimEarningsTransaction self.address vaultObjId
                settlement.vaultInitialSharedVersion
              withClient w (tx.submitWith "claim_earnings" w)

/-- `delegate`. -/
def ZingWallet.delegate (self : ZingWallet) (lib : Externals PeerId) (vaultObjectId : String)
    (amountFrost : ℕ) (w : WriteOutcome) : VaultSubmission :=
  match self.settlement with
  | none => .failed "settlement not configured"
  | some settlement =>
      match lib.parseAddress vaultObjectId with
      | .error e => .failed ("parse vault id: " ++ e)
      | .ok vaultObjId =>
          match settlement.buildDelegateTransaction lib self.address vaultObjId
            settlement.vaultInitialSharedVersion amountFrost with
          | none => ⟨none, none⟩
          | some tx => withClient w (tx.submitWith "delegate" w)

/-- A certificate object as read. -/
structure CertObject where
  version : Option ℕ
  digest : Option String
  json : Option (Option JsonKind)
deriving DecidableEq

/-- The vault id in the JSON of a certificate; no result is the panic on a value that is not a
struct. -/
def certVaultId : Option JsonKind → Option (ZingResult String)
  | none => some (.error (.suiClient "cert json not a struct"))
  | some .other => none
  | some (.structValue fields) =>
      match stringField fields "vault_id" with
      | none => some (.error (.suiClient "missing vault_id in cert"))
      | some vaultId => some (.ok vaultId)

/-- `undelegate`, with the answer to the read of the certificate. -/
def ZingWallet.undelegate (self : ZingWallet) (lib : Externals PeerId)
    (parseDigest : String → Except String Bytes32) (certObjectId : String)
    (read : Except String (Option CertObject)) (w : WriteOutcome) : VaultSubmission :=
  match self.settlement with
  | none => .failed "settlement not configured"
  | some settlement => withClient w <|
      match read with
      | .error e => .failed ("get cert: " ++ e)
      | .ok none => .failed "cert object not found"
      | .ok (some obj) =>
          match obj.version with
          | none => .failed "cert has no version"
          | some certVersion =>
              match obj.digest.map parseDigest with
              | none => .failed "cert has no digest"
              | some (.error e) => .failed ("parse cert digest: " ++ e)
              | some (.ok certDigest) =>
                  match obj.json.map certVaultId with
                  | none => .failed "cert has no json"
                  | some none => ⟨none, none⟩
                  | some (some (.error e)) => ⟨none, some (.error e)⟩
                  | some (some (.ok vaultId)) =>
                      match lib.parseAddress vaultId with
                      | .error e => .failed ("parse vault id: " ++ e)
                      | .ok vaultObjId =>
                          match lib.parseAddress certObjectId with
                          | .error e => .failed ("parse cert id: " ++ e)
                          | .ok certObjId =>
                              (settlement.buildUndelegateTransaction self.address vaultObjId
                                settlement.vaultInitialSharedVersion certObjId certVersion
                                certDigest).submitWith "undelegate" w

/-! ### Finding the own vault -/

theorem hexDigit_toLower {n : ℕ} (h : n < 16) :
    (hexDigit n).toLower = hexDigit n ∧ hexDigit n ≠ 'x' := by
  have hall : ∀ n : Fin 16, (hexDigit n).toLower = hexDigit n ∧ hexDigit n ≠ 'x' := by decide
  exact hall ⟨n, h⟩

/-- The normalized key is the hexadecimal part. -/
theorem normalizedAddress_addressKey (bytes : Bytes) :
    normalizedAddress (addressKey bytes) = hexEncode bytes := by
  have htrim : trimStart0x (hexEncode bytes).toList = (hexEncode bytes).toList := by
    rw [hexEncode, String.toList_ofList]
    cases bytes with
    | nil => rfl
    | cons b rest =>
        have hx : hexDigit (b.toNat % 16) ≠ 'x' := (hexDigit_toLower (Nat.mod_lt _ (by decide))).2
        rw [List.flatMap_cons, List.cons_append, List.cons_append, trimStart0x]
        intro tail hdigits
        exact hx (List.cons.inj (List.cons.inj hdigits).2).1
  have hlower : ∀ c ∈ (hexEncode bytes).toList, c.toLower = c := by
    intro c hc
    rw [hexEncode, String.toList_ofList, List.mem_flatMap] at hc
    obtain ⟨b, -, hc⟩ := hc
    have hb : b.toNat / 16 < 16 := Nat.div_lt_of_lt_mul b.toNat_lt
    rcases List.mem_cons.mp hc with rfl | hc
    · exact (hexDigit_toLower hb).1
    · obtain rfl := List.mem_singleton.mp hc
      exact (hexDigit_toLower (Nat.mod_lt _ (by decide))).1
  have hkey : (addressKey bytes).toList = '0' :: 'x' :: (hexEncode bytes).toList := by
    rw [addressKey, String.toList_append]
    rfl
  rw [normalizedAddress, hkey, trimStart0x, htrim, List.map_congr_left hlower, List.map_id',
    String.ofList_toList]

theorem mapGet_cons (p : String × PeerVaultInfo) (pairs : List (String × PeerVaultInfo))
    (key : String) :
    mapGet (p :: pairs) key = (mapGet pairs key).or (if p.1 = key then some p.2 else none) := by
  by_cases hp : p.1 = key
  · cases hfind : pairs.reverse.find? fun q => q.1 = key <;>
      simp [mapGet, List.find?_append, hfind, hp]
  · cases hfind : pairs.reverse.find? fun q => q.1 = key <;>
      simp [mapGet, List.find?_append, hfind, hp]

/-- The entries of the map are what `get` finds. -/
theorem mem_mapEntries_iff {pairs : List (String × PeerVaultInfo)} {key : String}
    {info : PeerVaultInfo} : (key, info) ∈ mapEntries pairs ↔ mapGet pairs key = some info := by
  induction pairs generalizing key info with
  | nil => exact ⟨(nomatch ·), (nomatch ·)⟩
  | cons p pairs ih =>
      have hkeys : ∀ k, k ∈ (mapEntries pairs).map Prod.fst ↔ (mapGet pairs k).isSome := by
        intro k
        rw [Option.isSome_iff_exists, List.mem_map]
        constructor
        · rintro ⟨q, hq, rfl⟩
          exact ⟨q.2, ih.mp hq⟩
        · rintro ⟨v, hv⟩
          exact ⟨(k, v), ih.mpr hv, rfl⟩
      have hcons : mapEntries (p :: pairs) =
          if p.1 ∈ (mapEntries pairs).map Prod.fst then mapEntries pairs
          else p :: mapEntries pairs := rfl
      rw [hcons, mapGet_cons]
      by_cases hp : p.1 = key
      · subst hp
        split
        · rename_i hmem
          obtain ⟨v, hv⟩ := Option.isSome_iff_exists.mp ((hkeys p.1).mp hmem)
          rw [ih, hv, Option.some_or]
        · rename_i hmem
          have hnone : mapGet pairs p.1 = none :=
            Option.not_isSome_iff_eq_none.mp (mt (hkeys p.1).mpr hmem)
          rw [List.mem_cons, ih, hnone, Option.none_or, if_pos rfl, Option.some.injEq,
            Prod.ext_iff]
          simp [eq_comm]
      · rw [if_neg hp, Option.or_none, ← ih]
        split
        · rfl
        · rw [List.mem_cons, or_iff_right fun heq => hp (congrArg Prod.fst heq).symm]

/-- **The walk of the map finds what `get` does**, in every order: keys stay apart without
their prefix. -/
theorem vaultOfAddress_visit {pairs : List (String × PeerVaultInfo)}
    (hkeys : ∀ p ∈ pairs, ∃ bytes, p.1 = addressKey bytes) {address : String} {bytes : Bytes}
    (haddress : normalizedAddress address = hexEncode bytes)
    (order : IterationOrder (String × PeerVaultInfo)) :
    vaultOfAddress (order.visit (mapEntries pairs)) address = mapGet pairs (addressKey bytes) := by
  have hperm := order.perm (mapEntries pairs)
  have hmatch : ∀ p ∈ order.visit (mapEntries pairs),
      normalizedAddress p.1 = normalizedAddress address →
        mapGet pairs (addressKey bytes) = some p.2 := by
    intro p hp hnormalized
    have hget := mem_mapEntries_iff.mp (hperm.mem_iff.mp hp)
    have hpair : p.1 ∈ pairs.map Prod.fst := by
      rw [mapGet, Option.map_eq_some_iff] at hget
      obtain ⟨q, hq, -⟩ := hget
      have hkey := List.find?_some hq
      exact List.mem_map.mpr ⟨q, List.mem_reverse.mp (List.mem_of_find?_eq_some hq),
        of_decide_eq_true hkey⟩
    obtain ⟨q, hq, hkey⟩ := List.mem_map.mp hpair
    obtain ⟨bytes', hbytes⟩ := hkeys q hq
    rw [← hkey, hbytes, normalizedAddress_addressKey, haddress] at hnormalized
    rw [← hkey, hbytes, hexEncode_injective hnormalized] at hget
    exact hget
  rw [vaultOfAddress]
  cases hfound : (order.visit (mapEntries pairs)).findSome? fun p =>
      if normalizedAddress p.1 = normalizedAddress address then some p.2 else none with
  | some info =>
      obtain ⟨p, hp, hinfo⟩ := List.exists_of_findSome?_eq_some hfound
      split at hinfo
      · rename_i hnormalized
        rw [hmatch p hp hnormalized, hinfo]
      · cases hinfo
  | none =>
      refine (Option.eq_none_iff_forall_ne_some.mpr fun info hget => ?_).symm
      have hmem := hperm.mem_iff.mpr (mem_mapEntries_iff.mpr hget)
      have hmissed := List.findSome?_eq_none_iff.mp hfound _ hmem
      rw [normalizedAddress_addressKey, haddress, if_pos rfl] at hmissed
      cases hmissed

section OwnVault

variable {wallet : ZingWallet} {settlement : SettlementConfig} {alternate : Address → String}

/-- Every listed vault is under the key of some bytes. -/
theorem key_of_mem_listPeerVaults (hs : wallet.settlement = some settlement) {o : VaultListing}
    {vaults : List (String × PeerVaultInfo)} (hvaults : wallet.listPeerVaults o = .ok vaults)
    {p : String × PeerVaultInfo} (hp : p ∈ vaults) : ∃ bytes, p.1 = addressKey bytes := by
  obtain ⟨-, rfl⟩ := (listPeerVaults_eq_ok_iff hs).mp hvaults
  split at hp
  · cases hp
  · obtain ⟨⟨key, r⟩, hpair, hlisted⟩ := List.mem_filterMap.mp hp
    obtain ⟨entry, -, hentry⟩ := List.mem_map.mp (List.of_mem_zip hpair).1
    obtain ⟨info, -, rfl⟩ := Option.map_eq_some_iff.mp ((listedVault_eq key r).symm.trans hlisted)
    exact ⟨entry.1, (congrArg Prod.fst hentry).symm⟩

/-- The walk of the listed vaults finds the last one read for an address. -/
theorem vaultOfAddress_listed (hs : wallet.settlement = some settlement) {o : VaultListing}
    {vaults : List (String × PeerVaultInfo)} (hvaults : wallet.listPeerVaults o = .ok vaults)
    (a : Address) (order : IterationOrder (String × PeerVaultInfo)) :
    vaultOfAddress (order.visit (mapEntries vaults)) (addressKey a.bytes.toList)
      = (recipientVaults a o).getLast? := by
  have hkeys : ∀ p ∈ vaults, ∃ bytes, p.1 = addressKey bytes :=
    fun p hp => key_of_mem_listPeerVaults hs hvaults hp
  rw [vaultOfAddress_visit hkeys (normalizedAddress_addressKey _),
    ((listPeerVaults_eq_ok_iff hs).mp hvaults).2, recipientVaults]
  split
  · rfl
  · exact mapGet_listed a _ _

/-- **The wallet's own vault**: the last one read for the entries of its address. -/
theorem getMyVaultInfo_eq_ok_iff (hs : wallet.settlement = some settlement)
    (halternate : alternate wallet.address = addressKey wallet.address.bytes.toList)
    {o : VaultListing} {order : IterationOrder (String × PeerVaultInfo)}
    {found : Option PeerVaultInfo} :
    wallet.getMyVaultInfo alternate o order = .ok found ↔
      o.Readable ∧ found = (recipientVaults wallet.address o).getLast? := by
  rw [ZingWallet.getMyVaultInfo]
  cases hlist : wallet.listPeerVaults o with
  | error e =>
      refine ⟨(nomatch ·), fun h => ?_⟩
      have hok := (listPeerVaults_eq_ok_iff hs).mpr ⟨h.1, rfl⟩
      cases hlist.symm.trans hok
  | ok vaults =>
      have hreadable := ((listPeerVaults_eq_ok_iff hs).mp hlist).1
      simp only [halternate, vaultOfAddress_listed hs hlist wallet.address order, Except.ok.injEq]
      rw [eq_comm, and_iff_right hreadable]

end OwnVault

/-! ### What is submitted -/

section Submitted

variable {wallet : ZingWallet} {settlement : SettlementConfig} {lib : Externals PeerId}
  {w : WriteOutcome} {tx : VaultTransaction}

theorem withClient_tx_iff {rest : VaultSubmission} :
    (withClient w rest).tx = some tx ↔ w.client = .ok () ∧ rest.tx = some tx := by
  rw [withClient]
  rcases w.client with e | ⟨⟩
  · simp [VaultSubmission.failed]
  · simp

theorem VaultTransaction.tx_submitWith_iff {built : VaultTransaction} {name : String} :
    (built.submitWith name w).tx = some tx ↔
      w.build = .ok () ∧ w.sign = .ok () ∧ built = tx := by
  rw [VaultTransaction.submitWith]
  rcases w.build with e | ⟨⟩
  · simp [VaultSubmission.failed]
  rcases w.sign with e | ⟨⟩
  · simp [VaultSubmission.failed]
  rcases w.execute with e | ⟨⟩ <;> simp

theorem withClient_submitWith_tx_iff {built : VaultTransaction} {name : String} :
    (withClient w (built.submitWith name w)).tx = some tx ↔ w.Ready ∧ built = tx := by
  rw [withClient_tx_iff, VaultTransaction.tx_submitWith_iff]
  exact ⟨fun ⟨hclient, hbuild, hsign, htx⟩ => ⟨⟨hclient, hbuild, hsign⟩, htx⟩,
    fun ⟨hready, htx⟩ => ⟨hready.client, hready.build, hready.sign, htx⟩⟩

/-- **What `create_vault` submits.** -/
theorem createVault_tx_iff (hs : wallet.settlement = some settlement)
    {vaults : VaultRegistryConfig} :
    (wallet.createVault vaults w).tx = some tx ↔ w.Ready ∧
      settlement.buildCreateVaultTransaction vaults wallet.address = some tx := by
  rw [ZingWallet.createVault, hs]
  rcases hbuilt : settlement.buildCreateVaultTransaction vaults wallet.address with - | built
  · simp [hbuilt, VaultSubmission.failed]
  · simp [hbuilt, withClient_submitWith_tx_iff]

end Submitted

end ZingCdn
