import ZingCdn.Effects

/-!
# The Wallet's Payments

`pay_wal` and what it calls: the attempt to pay on chain, with the lookup of the
recipient's vault in the listing of the `peer_vaults` table, and the synthetic proof that
stands in when there is no settlement configuration or the attempt fails.

The attempt is a function of the remote outcomes (`OnchainOutcome`): `payTransaction` is
the transaction it submits, when every step before the submission succeeds, and
`tryOnchainPay` its result. Only the panics are a third outcome: a configured coin type
that does not parse, and a digest of the wrong length.
-/

open Program Program.Prog

namespace ZingCdn

variable {PeerId : Type}

/-- A proof of payment. -/
abbrev PaymentProof : Type := Bytes32

/-- A vault as listed. -/
structure PeerVaultInfo where
  reserves : ℕ
  totalShares : ℕ
  commissionBps : ℕ
  peerEarnings : ℕ
  vaultObjectId : String
deriving DecidableEq

/-- The wallet: its address and the settlement configuration. -/
structure ZingWallet where
  address : Address
  settlement : Option SettlementConfig
deriving DecidableEq

/-! ### Listing the vaults -/

/-- The string in a field of a JSON struct. -/
def stringField (fields : List (String × Option FieldKind)) (name : String) : Option String :=
  match (fields.find? fun f => f.1 = name).bind Prod.snd with
  | some (.stringValue s) => some s
  | _ => none

/-- `parse_vault_json`. -/
def parseVaultJson (json : Option JsonKind) (vaultObjectId : String) : Option PeerVaultInfo :=
  match json with
  | some (.structValue fields) => do
      let reserves ← (stringField fields "reserves").bind parseU64
      let totalShares ← (stringField fields "total_shares").bind parseU64
      let commissionBps ← (stringField fields "commission_bps").bind parseU64
      let peerEarnings ← (stringField fields "peer_earnings").bind parseU64
      some { reserves, totalShares, commissionBps, peerEarnings, vaultObjectId }
  | _ => none

/-- The key of a peer in the listing: `0x` and its address in hexadecimal. -/
def addressKey (bytes : Bytes) : String := "0x" ++ hexEncode bytes

/-- The vault id of a table entry. -/
def DynamicField.vaultId (df : DynamicField) : Option String :=
  match df.childId with
  | some childId => some childId
  | none => df.value.join.map addressKey

/-- The peer of a table entry. -/
def DynamicField.peer (df : DynamicField) : Option String :=
  df.name.join.bind fun bytes =>
    if bytes.length < 32 then none else some (addressKey (bytes.take 32))

/-- The peer and vault of each entry that has both; failed stream items are skipped. -/
def addrToVaultId (items : List (Except String DynamicField)) : List (String × String) :=
  items.filterMap fun
    | .ok df => do
        let vaultId ← df.vaultId
        let addr ← df.peer
        some (addr, vaultId)
    | .error _ => none

/-- The vault in the object read for an entry. -/
def listedVault (entry : String × String) : ObjectResult → Option (String × PeerVaultInfo)
  | .object (some json) => (parseVaultJson json entry.2).map (entry.1, ·)
  | _ => none

/-- `list_peer_vaults`: the listed vaults by the key of their peer, in order; of two
entries with one key the later one counts. -/
def ZingWallet.listPeerVaults (self : ZingWallet) (o : VaultListing) :
    ZingResult (List (String × PeerVaultInfo)) :=
  match self.settlement with
  | none => .ok []
  | some _ =>
      match o.client with
      | .error e => .error (.suiClient ("rpc: " ++ e))
      | .ok () =>
          let entries := addrToVaultId o.fields
          if entries.isEmpty then .ok []
          else
            match o.objects with
            | .error e => .error (.suiClient ("batch_get_vaults: " ++ e))
            | .ok results =>
                .ok ((entries.zip results).filterMap fun (entry, r) => listedVault entry r)

/-- `HashMap::get` on pairs inserted in order. -/
def mapGet (pairs : List (String × PeerVaultInfo)) (key : String) : Option PeerVaultInfo :=
  (pairs.reverse.find? fun p => p.1 = key).map Prod.snd

/-- `get_vault_for_recipient`: the recipient's listed vault, or the configured one. -/
def ZingWallet.getVaultForRecipient (self : ZingWallet) (lib : Externals PeerId)
    (recipient : Address) (o : VaultListing) : ZingResult Address :=
  let recipientHex := addressKey recipient.bytes.toList
  match self.listPeerVaults o with
  | .error e => .error e
  | .ok vaults =>
      match mapGet vaults recipientHex with
      | some vaultInfo =>
          match lib.parseAddress vaultInfo.vaultObjectId with
          | .ok a => .ok a
          | .error e => .error (.suiClient ("parse vault id: " ++ e))
      | none =>
          match self.settlement with
          | none => .error (.suiClient "settlement not configured")
          | some settlement =>
              match settlement.vaultObjectId with
              | some a => .ok a
              | none => .error (.suiClient "no vault_object_id in config")

/-! ### Paying on chain -/

/-- The part of `try_onchain_pay` before the submission; `none` is a panic. -/
def ZingWallet.payTransaction (self : ZingWallet) (lib : Externals PeerId)
    (settlement : SettlementConfig) (recipient : Address) (blobHash : Bytes32) (amount : ℕ)
    (o : OnchainOutcome) : Option (ZingResult PayTransaction) :=
  match o.client with
  | .error e => some (.error (.suiClient ("rpc: " ++ e)))
  | .ok () =>
      match self.getVaultForRecipient lib recipient o.listing with
      | .error e => some (.error e)
      | .ok vaultObjId =>
          match settlement.buildPayTransaction lib self.address recipient blobHash amount
              vaultObjId with
          | none => none
          | some tx =>
              match o.build with
              | .error e => some (.error (.suiClient ("build: " ++ e)))
              | .ok () =>
                  match o.sign with
                  | .error e => some (.error (.suiClient ("sign: " ++ e)))
                  | .ok () => some (.ok tx)

/-- `try_onchain_pay`; `none` is a panic. -/
def ZingWallet.tryOnchainPay (self : ZingWallet) (lib : Externals PeerId)
    (settlement : SettlementConfig) (recipient : Address) (blobHash : Bytes32) (amount : ℕ)
    (o : OnchainOutcome) : Option (ZingResult PaymentProof) :=
  match self.payTransaction lib settlement recipient blobHash amount o with
  | none => none
  | some (.error e) => some (.error e)
  | some (.ok _) =>
      match o.execute with
      | .error e => some (.error (.suiClient ("tx: " ++ e)))
      | .ok none => some (.error (.suiClient "no digest"))
      | .ok (some digestB58) =>
          match lib.bs58Decode digestB58 with
          | .error e => some (.error (.suiClient ("digest decode: " ++ e)))
          | .ok digestRaw =>
              -- `copy_from_slice` panics on a digest that is not 32 bytes long
              if h : digestRaw.length = 32 then some (.ok ⟨digestRaw, h⟩) else none

/-- The hash of a synthetic proof. -/
def syntheticProof (lib : Externals PeerId) (recipient : Address) (blobHash : Bytes32)
    (amount c : ℕ) : PaymentProof :=
  lib.sha256 ("zing-payment-v1".toUTF8.toList ++ (lib.addressToString recipient).toUTF8.toList
    ++ blobHash.toList ++ leBytes64 amount ++ leBytes64 c)

/-- `synthetic_pay`. -/
def syntheticPay (lib : Externals PeerId) (recipient : Address) (blobHash : Bytes32)
    (amount : ℕ) : Action PeerId (ZingResult PaymentProof) := do
  let counter : ℕ ← ask .paymentCounterFetchAdd
  let c := counter + 1
  pure (.ok (syntheticProof lib recipient blobHash amount c))

/-- What `pay_wal` does with the result of the attempt: the digest, or the fallback. -/
def finishPayment (lib : Externals PeerId) (recipient : Address) (blobHash : Bytes32)
    (amount : ℕ) : Option (ZingResult PaymentProof) → Action PeerId (ZingResult PaymentProof)
  | none => .panic
  | some (.ok d) => do
      let _ ← ask .paymentCounterFetchAdd
      pure (.ok d)
  | some (.error _) => syntheticPay lib recipient blobHash amount

/-- `pay_wal`: the attempt on chain, or the synthetic proof. -/
def ZingWallet.payWal (self : ZingWallet) (lib : Externals PeerId) (recipient : Address)
    (blobHash : Bytes32) (amount : ℕ) : Action PeerId (ZingResult PaymentProof) :=
  match self.settlement with
  | none => syntheticPay lib recipient blobHash amount
  | some settlement => do
      let o : OnchainOutcome ← ask (.onchainPay recipient blobHash amount)
      finishPayment lib recipient blobHash amount
        (self.tryOnchainPay lib settlement recipient blobHash amount o)

end ZingCdn
