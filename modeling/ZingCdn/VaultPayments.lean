import ZingCdn.VaultClient

/-!
# A Payment on Chain

What a payment of the wallet does to the chain. The wallet looks for the vault of the peer in a
listing, and the transaction is executed later: in between, anybody may have opened vaults,
paid, delegated, burned and claimed, and the admin may have linked addresses to other vaults.

The vault is the one that the last entry of the peer named when the listing was made. A later
link does not turn the payment: the transaction names the vault, and `settlement::pay` takes
any vault with any payee. An amount is covered when that much WAL circulates; the coins of a
single sender are not modelled.

## Main results

* `payment_takes_iff`: which payments are taken.
* `payment_credited`: where the payment goes.
-/

open Relation

namespace ZingCdn

variable {PeerId : Type}

/-! ### What the platform takes -/

/-- The deployment with its settlement object. -/
structure DeployedSettlement extends DeployedVaults where
  settlement : ID

/-- The call of the vault contracts that the transaction makes. -/
def PayTransaction.call? (tx : PayTransaction) : Option VaultCall :=
  if tx.moduleName = "settlement" ∧ tx.function = "pay" then
    some (.pay ⟨tx.vault.objectId⟩ tx.payee tx.blobHash tx.amount)
  else none

/-- The transaction is for this deployment. -/
structure DeployedSettlement.Fits (d : DeployedSettlement) (tx : PayTransaction) : Prop where
  package : tx.package = d.package
  settlement : tx.settlement.objectId = d.settlement.bytes
  settlementVersion : tx.settlement.initialSharedVersion = d.sharedFrom d.settlement
  version : tx.vault.initialSharedVersion = d.sharedFrom ⟨tx.vault.objectId⟩
  coin : tx.coinType = d.wal

/-- The transaction takes the ledger to another one. -/
def PayTransaction.Takes (tx : PayTransaction) (d : DeployedSettlement) (freshId : ID)
    (l l' : VaultLedger) : Prop :=
  ∃ c, tx.call? = some c ∧ d.Fits tx ∧ l.submit ⟨tx.sender, freshId⟩ c = .ok l'

/-- A payment has gone into a vault: the vault splits it between its peer and its delegators,
everybody else is left alone, and nobody gets a coin. -/
structure PaidInto (l l' : VaultLedger) (id : ID) (v : PeerVault) (e : PaymentEvent) : Prop where
  vault : l'.vault? id = some { v with
    peerEarnings := v.peerEarnings + v.commissionOn e.amount
    reserves := v.reserves + (e.amount - v.commissionOn e.amount) }
  commission : v.commissionOn e.amount ≤ e.amount
  others : ∀ other, other ≠ id → l'.vault? other = l.vault? other
  certs : l'.certs = l.certs
  transfers : l'.transfers = l.transfers
  supply : l'.circulating + e.amount = l.circulating
  events : l'.events = l.events ++
    [.rewards ⟨v.peerAddress, e.amount, v.commissionOn e.amount⟩, .payment e]

/-! ### One payment -/

section Payment

variable {l l' : VaultLedger} {ctx : TxContext} {id : ID} {payee : Address} {blobHash : Bytes}
  {amount : ℕ}

/-- **Which payments are taken.** -/
theorem exists_submit_pay_iff (h : l.Valid) :
    (∃ l', l.submit ctx (.pay id payee blobHash amount) = .ok l') ↔
      0 < amount ∧ amount ≤ l.circulating ∧ ∃ v, l.vault? id = some v := by
  constructor
  · rintro ⟨l', hsub⟩
    cases VaultLedger.accepted_of_submit hsub with
    | @pay _ _ _ _ v out hcoin hv ok =>
        have hmem := VaultLedger.mem_of_vault? hv
        have hfit := h.holdings_le hmem
        exact ⟨((pay_eq_ok_iff (h.solvent v hmem) (by omega)).mp ok).1, hcoin, v, hv⟩
  · rintro ⟨hpos, hcoin, v, hv⟩
    have hmem := VaultLedger.mem_of_vault? hv
    have hfit := h.holdings_le hmem
    exact ⟨_, VaultLedger.submit_of_accepted
      (.pay hcoin hv (pay_eq (h.solvent v hmem) hpos (by omega) payee blobHash ctx))⟩

/-- **What a payment does.** -/
theorem paidInto_of_submit (h : l.Valid)
    (hsub : l.submit ctx (.pay id payee blobHash amount) = .ok l') :
    ∃ v, l.vault? id = some v ∧ PaidInto l l' id v ⟨ctx.sender, payee, blobHash, amount⟩ := by
  have h' := h.step (.tx ctx _ hsub)
  cases VaultLedger.accepted_of_submit hsub with
  | @pay _ _ _ _ v out hcoin hv ok =>
      have hmem := VaultLedger.mem_of_vault? hv
      have hid : v.id = id := KeyedList.key_of_lookup hv
      obtain ⟨hle, rfl⟩ := h.pay_out hmem hcoin ok
      refine ⟨v, hv, ?_, hle, fun other hother => ?_, rfl, rfl, Nat.sub_add_cancel hcoin, rfl⟩
      · rw [← hid]
        exact KeyedList.lookup_of_mem h'.vaults_nodup (KeyedList.mem_replace_self hmem rfl)
      · refine KeyedList.lookup_replace_of_ne (fun heq => ?_) l.vaults
        exact hother (heq.symm.trans hid)

/-- No certificate is worth less after a payment. -/
theorem payout_le_of_paidInto (h : l.Valid)
    (hsub : l.submit ctx (.pay id payee blobHash amount) = .ok l') {c : OwnedCertificate}
    (hc : c ∈ l.certs) {v v' : PeerVault} (hv : l.vault? c.certificate.vaultId = some v)
    (hv' : l'.vault? c.certificate.vaultId = some v') :
    v.payout c.certificate.shares ≤ v'.payout c.certificate.shares := by
  have hmem := VaultLedger.mem_of_vault? hv
  have hid : v.id = c.certificate.vaultId := KeyedList.key_of_lookup hv
  have hmem' := VaultLedger.mem_of_vault? hv'
  have hid' : v'.id = c.certificate.vaultId := KeyedList.key_of_lookup hv'
  have hstays : VaultLedger.Leaves c l l' := .tx ctx _ (fun _ => rfl) hsub
  exact VaultLedger.payout_le_of_runRel h (hstays.valid h) (hstays.runRel h h (.refl h)) hc
    (hstays.mem h hc) hmem hid hmem' hid'

end Payment

/-! ### The payment of a wallet -/

section Wallet

variable {wallet : ZingWallet} {settlement : SettlementConfig} {lib : Externals PeerId}
  {d : DeployedSettlement} {freshId : ID} {run run' : RegistryRun} {recipient : Address}
  {blobHash : Bytes32} {amount : ℕ} {o : OnchainOutcome} {tx : PayTransaction}

/-- The vault of an address that no link has touched is its own. -/
theorem RegistryRun.Valid.vault_of_unlinked (h : run.Valid) {id : ID}
    (hentry : run.entries recipient = some id) (hunlinked : ∀ id, .link recipient id ∉ run.moves) :
    ∃ v ∈ run.ledger.vaults, v.id = id ∧ v.peerAddress = recipient := by
  obtain ⟨before, move, after, hmoves, hmove, -⟩ := Latest.latest_eq_some_iff.mp hentry
  have hmem : move ∈ run.moves := hmoves ▸ List.mem_append_right _ List.mem_cons_self
  cases move with
  | link a id' =>
      obtain ⟨rfl, rfl⟩ := Prod.mk.inj (Option.some.inj hmove)
      exact absurd hmem (hunlinked _)
  | call ctx c =>
      cases c with
      | newVault =>
          obtain ⟨rfl, rfl⟩ := Prod.mk.inj (Option.some.inj hmove)
          obtain ⟨v, hv, hid, hpeer, -⟩ := h.opened ctx hmem
          exact ⟨v, hv, hid, hpeer⟩
      | createVault | delegate | undelegate | pay | claimEarnings | transfer => cases hmove

/-- A vault stays its peer's. -/
theorem RegistryRun.peer_of_run (h : run.Reachable) (hrun : ReflTransGen Step run run')
    {v : PeerVault} (hv : v ∈ run.ledger.vaults) :
    ∃ v' ∈ run'.ledger.vaults, v'.id = v.id ∧ v'.peerAddress = v.peerAddress := by
  induction hrun with
  | refl => exact ⟨v, hv, rfl, rfl⟩
  | @tail run₁ run₂ hfirst hlast ih =>
      obtain ⟨v₁, hv₁, hid₁, hpeer₁⟩ := ih
      have hvalid := valid_of_reachable (h.run hfirst)
      cases hlast with
      | call ctx c hsub =>
          obtain ⟨v₂, hv₂, hid₂, hpeer₂, -⟩ := VaultLedger.same_of_submit hvalid.ledger hsub hv₁
          exact ⟨v₂, hv₂, hid₂.trans hid₁, hpeer₂.trans hpeer₁⟩
      | link | supply => exact ⟨v₁, hv₁, hid₁, hpeer₁⟩

/-- The configuration is of the deployment, for a vault. -/
structure SettlementConfig.Matches (config : SettlementConfig) (lib : Externals PeerId)
    (d : DeployedSettlement) (vault : ID) : Prop where
  package : config.packageId = d.package
  settlement : config.settlementObjectId = d.settlement.bytes
  settlementVersion : config.settlementInitialSharedVersion = d.sharedFrom d.settlement
  vaultVersion : config.vaultInitialSharedVersion = d.sharedFrom vault
  coin : lib.structTagFromStr config.walCoinType = some d.wal

/-- **When a payment into a vault is taken.** -/
theorem payment_takes_iff {id : ID} {l l' : VaultLedger}
    (htx : settlement.buildPayTransaction lib wallet.address recipient blobHash amount id.bytes
      = some tx) :
    tx.Takes d freshId l l' ↔ settlement.Matches lib d id ∧
      l.submit ⟨wallet.address, freshId⟩ (.pay id recipient blobHash.toList amount) = .ok l' := by
  obtain ⟨tag, htag, rfl⟩ := Option.map_eq_some_iff.mp htx
  constructor
  · rintro ⟨c, hcall, hfits, hsub⟩
    obtain rfl := Option.some.inj hcall
    exact ⟨⟨hfits.package, hfits.settlement, hfits.settlementVersion, hfits.version,
      htag.trans (congrArg some hfits.coin)⟩, hsub⟩
  · rintro ⟨hmatches, hsub⟩
    exact ⟨_, rfl, ⟨hmatches.package, hmatches.settlement, hmatches.settlementVersion,
      hmatches.vaultVersion, Option.some.inj (htag.symm.trans hmatches.coin)⟩, hsub⟩

/-- **Where a payment goes.** The listing is one of a reachable chain and shows a vault for the
peer; the transaction is executed after any run from there. The vault is the one that the last
entry of the peer named when the listing was made. The payment is taken exactly when the
configuration is of the deployment, the amount is positive and covered, and that vault is there;
it is there, and is the peer's, unless the admin has linked the peer. A payment that is taken
goes into that vault, under the names of the wallet and of the peer, and no certificate of the
vault is worth less after it. -/
theorem payment_credited (hs : wallet.settlement = some settlement) (h : run.Reachable)
    (hlists : o.listing.ListsTable run.ledger.peerVaults)
    (hshown : recipientVaults recipient o.listing ≠ [])
    (hparse : ∀ id, run.entries recipient = some id →
      lib.parseAddress (objectKey id) = .ok id.bytes)
    (htx : wallet.payTransaction lib settlement recipient blobHash amount o = some (.ok tx))
    (hrun : ReflTransGen RegistryRun.Step run run') :
    ∃ id, run.entries recipient = some id ∧
      ((∃ l', tx.Takes d freshId run'.ledger l') ↔ settlement.Matches lib d id ∧ 0 < amount ∧
        amount ≤ run'.ledger.circulating ∧ ∃ v, run'.ledger.vault? id = some v) ∧
      ((∀ id, .link recipient id ∉ run.moves) →
        ∃ v, run'.ledger.vault? id = some v ∧ v.peerAddress = recipient) ∧
      ∀ l', tx.Takes d freshId run'.ledger l' → ∃ v, run'.ledger.vault? id = some v ∧
        PaidInto run'.ledger l' id v ⟨wallet.address, recipient, blobHash.toList, amount⟩ ∧
        ∀ c ∈ run'.ledger.certs, c.certificate.vaultId = id → ∀ v', l'.vault? id = some v' →
          v.payout c.certificate.shares ≤ v'.payout c.certificate.shares := by
  have hvalid' := RegistryRun.valid_of_reachable (h.run hrun)
  -- the vault that the wallet finds
  obtain ⟨-, -, -, vault, hvault, hbuilt⟩ := payTransaction_eq_ok_iff.mp htx
  obtain ⟨-, ⟨info, hlast, hparsed⟩ | ⟨hnone, -⟩⟩ := (getVaultForRecipient_eq_ok_iff hs).mp hvault
  case inr => exact absurd hnone hshown
  obtain ⟨id, hentry, hkey, -⟩ := entry_of_recipientVaults h hlists (List.mem_of_getLast? hlast)
  rw [hkey, hparse id hentry] at hparsed
  obtain rfl := Except.ok.inj hparsed
  refine ⟨id, hentry, ?_, fun hunlinked => ?_, fun l' htakes => ?_⟩
  · have haccepted : (∃ l', run'.ledger.submit ⟨wallet.address, freshId⟩
          (.pay id recipient blobHash.toList amount) = .ok l') ↔
        0 < amount ∧ amount ≤ run'.ledger.circulating ∧ ∃ v, run'.ledger.vault? id = some v :=
      exists_submit_pay_iff hvalid'.ledger
    rw [← haccepted]
    constructor
    · rintro ⟨l', htakes⟩
      obtain ⟨hmatches, hsub⟩ := (payment_takes_iff hbuilt).mp htakes
      exact ⟨hmatches, l', hsub⟩
    · rintro ⟨hmatches, l', hsub⟩
      exact ⟨l', (payment_takes_iff hbuilt).mpr ⟨hmatches, hsub⟩⟩
  · obtain ⟨v, hv, rfl, hpeer⟩ :=
      (RegistryRun.valid_of_reachable h).vault_of_unlinked hentry hunlinked
    obtain ⟨v', hv', hid', hpeer'⟩ := RegistryRun.peer_of_run h hrun hv
    exact ⟨v', hid' ▸ KeyedList.lookup_of_mem hvalid'.ledger.vaults_nodup hv', hpeer'.trans hpeer⟩
  · obtain ⟨-, hsub⟩ := (payment_takes_iff hbuilt).mp htakes
    obtain ⟨v, hv, hpaid⟩ := paidInto_of_submit hvalid'.ledger hsub
    refine ⟨v, hv, hpaid, ?_⟩
    rintro c hc rfl v' hv'
    exact payout_le_of_paidInto hvalid'.ledger hsub hc hv hv'

end Wallet

/-- The deployment, with the settlement object of the configuration. -/
def settledDeployment : DeployedSettlement :=
  { sampleDeployment with settlement := ⟨sampleSettlement.settlementObjectId⟩ }

/-- The address 3 pays ten frost to the address 1, whose vault was delegated to since it was
listed: one is the peer's, and nine are the delegators'. -/
theorem payment_credited_firstDelegation :
    ∃ tx l', ZingWallet.payTransaction ⟨sampleAddress 3, some sampleSettlement⟩ chainExternals
        sampleSettlement (sampleAddress 1) zeroBytes32 10
          { paidOutcome with listing := openedListing } = some (.ok tx) ∧
      tx.Takes settledDeployment (sampleId 3) VaultLedger.firstDelegation l' ∧
      l'.vault? (sampleId 1) = some ⟨sampleId 1, sampleAddress 1, 14, 5, 1000, 1⟩ := by
  have hparse : ∀ id, RegistryRun.openedRun.entries (sampleAddress 1) = some id →
      chainExternals.parseAddress (objectKey id) = .ok id.bytes := by
    intro id hid
    obtain rfl : sampleId 1 = id := Option.some.inj hid
    rfl
  have hdelegate : RegistryRun.Step RegistryRun.openedRun ⟨VaultLedger.firstDelegation, _⟩ :=
    .call ⟨sampleAddress 2, sampleId 2⟩ (.delegate (sampleId 1) 5) rfl
  have hbuilt : ZingWallet.payTransaction ⟨sampleAddress 3, some sampleSettlement⟩ chainExternals
      sampleSettlement (sampleAddress 1) zeroBytes32 10
        { paidOutcome with listing := openedListing } = some (.ok _) := rfl
  have hcredited : ∃ id, RegistryRun.openedRun.entries (sampleAddress 1) = some id ∧
      ((∃ l', PayTransaction.Takes _ settledDeployment (sampleId 3)
        VaultLedger.firstDelegation l') ↔ _) ∧ _ ∧ ∀ l', _ → _ :=
    payment_credited rfl RegistryRun.reachable_openedRun
      (openedListing_listsTable List.mem_cons_self) recipientVaults_openedListing hparse hbuilt
      (.single hdelegate)
  obtain ⟨id, hid, htaken, -, hpaid⟩ := hcredited
  obtain rfl : sampleId 1 = id := Option.some.inj hid
  obtain ⟨l', htakes⟩ := htaken.mpr ⟨⟨rfl, rfl, rfl, rfl, rfl⟩, by decide, by decide, _, rfl⟩
  obtain ⟨v, hv, hinto, -⟩ := hpaid l' htakes
  obtain rfl := Option.some.inj hv
  exact ⟨_, l', hbuilt, htakes, hinto.vault⟩

end ZingCdn
