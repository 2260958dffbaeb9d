import ZingCdn.Types

/-!
# The Settlement Configuration and the Payment Transaction

The configured on-chain objects of the settlement contract and the programmable
transaction that `build_pay_transaction` assembles: a coin of the exact amount and one
call of `settlement::pay` with the settlement object, the vault, the payee and the blob
hash.
-/

namespace ZingCdn

/-- Configuration for the on-chain settlement contract. -/
structure SettlementConfig where
  packageId : Address
  settlementObjectId : Address
  registryObjectId : Address
  registryPeersTableId : Address
  peerVaultsTableId : Bytes32
  vaultObjectId : Option Address
  walCoinType : String
  registryInitialSharedVersion : ℕ
  settlementInitialSharedVersion : ℕ
  vaultInitialSharedVersion : ℕ
deriving DecidableEq

/-- A shared object passed to a transaction. -/
structure SharedInput where
  objectId : Address
  initialSharedVersion : ℕ
  isMutable : Bool
deriving DecidableEq

/-- A transaction calling `settlement::pay`, with its arguments in the order of the call. -/
structure PayTransaction where
  sender : Address
  package : Address
  moduleName : String
  function : String
  settlement : SharedInput
  vault : SharedInput
  payee : Address
  blobHash : Bytes
  /-- the type and the amount of the coin the builder selects and splits -/
  coinType : StructTag
  amount : ℕ
  gasBudget : ℕ
deriving DecidableEq

/-- `SettlementConfig::build_pay_transaction`; `none` is the panic on a configured coin
type that does not parse. `vaultObjId` is meant to be the recipient's vault. -/
def SettlementConfig.buildPayTransaction {PeerId : Type} (self : SettlementConfig)
    (lib : Externals PeerId) (sender recipient : Address) (blobHash : Bytes32) (amount : ℕ)
    (vaultObjId : Address) : Option PayTransaction :=
  (lib.structTagFromStr self.walCoinType).map fun tag => {
    sender
    package := self.packageId
    moduleName := "settlement"
    function := "pay"
    settlement := ⟨self.settlementObjectId, self.settlementInitialSharedVersion, false⟩
    vault := ⟨vaultObjId, self.vaultInitialSharedVersion, true⟩
    payee := recipient
    blobHash := blobHash.toList
    coinType := tag
    amount
    gasBudget := 5000000 }

end ZingCdn
