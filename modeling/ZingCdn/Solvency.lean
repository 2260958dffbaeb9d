import Mathlib.Algebra.Order.BigOperators.Group.List
import ZingCdn.VaultLedger

/-!
# Vault Solvency

The invariant of every run of the vault contracts, and what it guarantees. Nothing in
the contracts checks it: the shares of a vault are exactly the shares of its live
certificates, every share is backed by a frost of reserves, and all WAL together is a
`u64`. It survives the rounding of `delegate` and `undelegate` because the pool
operations preserve their backing (`SharePool`), a full drain to zero shares, and rewards
paid into a vault without shares.

## Main results

* `valid_of_reachable`: the invariant holds of every reachable ledger.
* `vault_solvency`: in every reachable ledger the invariant's accounting facts hold of
  every vault, burning a live certificate never aborts, paying a positive coin never
  aborts, and delegating a positive coin aborts only when it is worth less than a share.
-/

open Relation

namespace ZingCdn

/-! ### Shares of live certificates -/

/-- The live shares of a vault, summed certificate by certificate. -/
theorem liveShares_eq_sum (certs : List OwnedCertificate) (vault : ID) :
    liveShares certs vault = (certs.map fun c =>
      if c.certificate.vaultId = vault then c.certificate.shares else 0).sum := by
  induction certs with
  | nil => rfl
  | cons c certs ih =>
      by_cases h : c.certificate.vaultId = vault
      · simp only [liveShares, List.filter_cons, h, decide_true, if_true, List.map_cons,
          List.sum_cons] at ih ⊢
        rw [ih]
      · simp only [liveShares, List.filter_cons, h, decide_false, Bool.false_eq_true,
          if_false, List.map_cons, List.sum_cons, Nat.zero_add] at ih ⊢
        exact ih

/-- One certificate more. -/
theorem liveShares_cons (c : OwnedCertificate) (certs : List OwnedCertificate) (vault : ID) :
    liveShares (c :: certs) vault =
      (if c.certificate.vaultId = vault then c.certificate.shares else 0)
        + liveShares certs vault := by
  simp only [liveShares_eq_sum, List.map_cons, List.sum_cons]

/-- Burning a certificate removes exactly its shares, from its vault only. -/
theorem liveShares_remove {certs : List OwnedCertificate}
    (hnd : (certs.map OwnedCertificate.id).Nodup) {c : OwnedCertificate} (hc : c ∈ certs)
    (vault : ID) :
    liveShares (KeyedList.remove OwnedCertificate.id c.id certs) vault
      + (if c.certificate.vaultId = vault then c.certificate.shares else 0)
      = liveShares certs vault := by
  simp only [liveShares_eq_sum]
  exact KeyedList.sum_remove _ hnd hc

/-- Handing a certificate to another owner leaves every vault's live shares alone. -/
theorem liveShares_replace {certs : List OwnedCertificate}
    (hnd : (certs.map OwnedCertificate.id).Nodup) {c : OwnedCertificate} (hc : c ∈ certs)
    (recipient : Address) (vault : ID) :
    liveShares (KeyedList.replace OwnedCertificate.id ⟨recipient, c.certificate⟩ certs) vault
      = liveShares certs vault := by
  simp only [liveShares_eq_sum]
  have := KeyedList.sum_replace
    (fun c => if c.certificate.vaultId = vault then c.certificate.shares else 0) hnd
    (v := ⟨recipient, c.certificate⟩) hc rfl
  simpa using this

/-- One live certificate holds at most the live shares of its vault. -/
theorem shares_le_liveShares {certs : List OwnedCertificate} {c : OwnedCertificate}
    (hc : c ∈ certs) : c.certificate.shares ≤ liveShares certs c.certificate.vaultId := by
  induction certs with
  | nil => simp at hc
  | cons a certs ih =>
      rw [liveShares_cons]
      rcases List.mem_cons.mp hc with rfl | hc'
      · rw [if_pos rfl]
        exact Nat.le_add_right _ _
      · exact le_trans (ih hc') (Nat.le_add_left _ _)

/-- A vault no certificate names has no live shares. -/
theorem liveShares_eq_zero {certs : List OwnedCertificate} {vault : ID}
    (h : ∀ c ∈ certs, c.certificate.vaultId ≠ vault) : liveShares certs vault = 0 := by
  have hnil : certs.filter (fun c => c.certificate.vaultId = vault) = [] :=
    List.filter_eq_nil_iff.mpr fun c hc => by simpa using h c hc
  rw [liveShares, hnil]
  rfl

/-! ### The invariant -/

/-- The invariant of every run. -/
structure VaultLedger.Valid (l : VaultLedger) : Prop where
  vaults_nodup : (l.vaults.map PeerVault.id).Nodup
  certs_nodup : (l.certs.map OwnedCertificate.id).Nodup
  vault_used : ∀ v ∈ l.vaults, v.id ∈ l.ids
  cert_used : ∀ c ∈ l.certs, c.id ∈ l.ids ∧ c.certificate.vaultId ∈ l.ids
  cert_pos : ∀ c ∈ l.certs, 0 < c.certificate.shares
  solvent : ∀ v ∈ l.vaults, v.Solvent
  shares : ∀ v ∈ l.vaults, v.totalShares = liveShares l.certs v.id
  supply : l.circulating + l.locked ≤ u64Max

namespace VaultLedger

variable {l l' : VaultLedger}

/-- The empty ledger is valid. -/
theorem valid_of_genesis (h : l.Genesis) : l.Valid := by
  obtain ⟨hv, hc, -, -, -, hsupply⟩ := h
  constructor <;> simp [hv, hc, locked, hsupply]

/-- A vault that is found is on the ledger. -/
theorem mem_of_vault? {id : ID} {v : PeerVault} (h : l.vault? id = some v) : v ∈ l.vaults :=
  KeyedList.mem_of_lookup h

/-- So is a certificate. -/
theorem mem_of_cert? {id : ID} {c : OwnedCertificate} (h : l.cert? id = some c) :
    c ∈ l.certs :=
  KeyedList.mem_of_lookup h

/-- It has the id. -/
theorem id_of_cert? {id : ID} {c : OwnedCertificate} (h : l.cert? id = some c) : c.id = id :=
  KeyedList.key_of_lookup h

/-- A vault's holdings are part of the supply. -/
theorem Valid.holdings_le (h : l.Valid) {v : PeerVault} (hv : v ∈ l.vaults) :
    l.circulating + (v.reserves + v.peerEarnings) ≤ u64Max := by
  have hone : holdings v ≤ l.locked :=
    List.single_le_sum (fun _ _ => Nat.zero_le _) _ (List.mem_map_of_mem hv)
  have := h.supply
  simp only [holdings] at hone
  omega

/-- A live certificate's shares are outstanding in its vault. -/
theorem Valid.shares_le (h : l.Valid) {v : PeerVault} {c : OwnedCertificate}
    (hv : v ∈ l.vaults) (hc : c ∈ l.certs) (hid : v.id = c.certificate.vaultId) :
    c.certificate.shares ≤ v.totalShares := by
  rw [h.shares v hv, hid]
  exact shares_le_liveShares hc

/-- The WAL in the vaults after one of them was updated. -/
theorem locked_setVault (h : l.Valid) {v w : PeerVault} (hw : w ∈ l.vaults)
    (hid : w.id = v.id) : (l.setVault v).locked + holdings w = l.locked + holdings v :=
  KeyedList.sum_replace holdings h.vaults_nodup hw hid

/-- **The update rule.** A call that replaces the vault `w` by `v`, the certificates and
the circulating WAL keeps the invariant when `v` is solvent and accounts for the new
certificates, the other vaults' live shares are unchanged, and no WAL is made. -/
theorem Valid.update (h : l.Valid) {v w : PeerVault} (hsolvent : v.Solvent)
    (hw : w ∈ l.vaults) (hid : w.id = v.id)
    (hvaults : l'.vaults = (l.setVault v).vaults) (hids : ∀ id ∈ l.ids, id ∈ l'.ids)
    (hcerts : (l'.certs.map OwnedCertificate.id).Nodup)
    (hcert : ∀ c ∈ l'.certs, c.id ∈ l'.ids ∧ c.certificate.vaultId ∈ l'.ids ∧
      0 < c.certificate.shares)
    (hshares : v.totalShares = liveShares l'.certs v.id)
    (hothers : ∀ id ≠ v.id, liveShares l'.certs id = liveShares l.certs id)
    (hsupply : l'.circulating + holdings v = l.circulating + holdings w) : l'.Valid where
  vaults_nodup := by
    rw [hvaults, setVault, KeyedList.map_key_replace]
    exact h.vaults_nodup
  certs_nodup := hcerts
  vault_used := by
    intro u hu
    rw [hvaults] at hu
    rcases KeyedList.mem_replace hu with rfl | ⟨hu', -⟩
    · exact hids _ (hid ▸ h.vault_used w hw)
    · exact hids _ (h.vault_used u hu')
  cert_used := fun c hc => ⟨(hcert c hc).1, (hcert c hc).2.1⟩
  cert_pos := fun c hc => (hcert c hc).2.2
  solvent := by
    intro u hu
    rw [hvaults] at hu
    rcases KeyedList.mem_replace hu with rfl | ⟨hu', -⟩
    · exact hsolvent
    · exact h.solvent u hu'
  shares := by
    intro u hu
    rw [hvaults] at hu
    rcases KeyedList.mem_replace hu with rfl | ⟨hu', hne⟩
    · exact hshares
    · rw [hothers u.id hne]
      exact h.shares u hu'
  supply := by
    have hlocked := locked_setVault h hw hid
    have hl' : l'.locked = (l.setVault v).locked := by rw [locked, locked, hvaults]
    have := h.supply
    omega

/-- A new vault without shares or WAL, under a fresh id, keeps the invariant. -/
theorem Valid.addVault (h : l.Valid) {v : PeerVault} {id : ID} (hid : v.id = id)
    (fresh : id ∉ l.ids) (hvaults : l'.vaults = v :: l.vaults) (hids : l'.ids = id :: l.ids)
    (hcerts : l'.certs = l.certs) (hcirc : l'.circulating = l.circulating)
    (hsolvent : v.Solvent) (hshares : v.totalShares = 0) (hholdings : holdings v = 0) :
    l'.Valid where
  vaults_nodup := by
    rw [hvaults, List.map_cons, List.nodup_cons]
    refine ⟨fun hmem => ?_, h.vaults_nodup⟩
    obtain ⟨u, hu, hk⟩ := List.mem_map.mp hmem
    exact fresh (hid ▸ hk ▸ h.vault_used u hu)
  certs_nodup := hcerts ▸ h.certs_nodup
  vault_used := by
    intro u hu
    rw [hvaults] at hu
    rw [hids]
    rcases List.mem_cons.mp hu with rfl | hu'
    · exact hid ▸ List.mem_cons_self
    · exact List.mem_cons_of_mem _ (h.vault_used u hu')
  cert_used := by
    intro c hc
    rw [hcerts] at hc
    rw [hids]
    exact (h.cert_used c hc).imp (List.mem_cons_of_mem _) (List.mem_cons_of_mem _)
  cert_pos := hcerts ▸ h.cert_pos
  solvent := by
    intro u hu
    rw [hvaults] at hu
    rcases List.mem_cons.mp hu with rfl | hu'
    · exact hsolvent
    · exact h.solvent u hu'
  shares := by
    intro u hu
    rw [hvaults] at hu
    rw [hcerts]
    rcases List.mem_cons.mp hu with rfl | hu'
    · rw [hshares, liveShares_eq_zero]
      intro c hc hk
      exact fresh (hid ▸ hk ▸ (h.cert_used c hc).2)
    · exact h.shares u hu'
  supply := by
    have := h.supply
    rw [hcirc, locked, hvaults, List.map_cons, List.sum_cons, hholdings, Nat.zero_add]
    exact this

/-! ### Every step keeps it -/

/-- A delegation keeps the ledger valid. -/
theorem Valid.delegate (h : l.Valid) {ctx : TxContext} {vault : ID} {coin : ℕ}
    {v : PeerVault} {out : Delegated} (fresh : ctx.freshId ∉ l.ids)
    (hcoin : coin ≤ l.circulating) (hv : l.vault? vault = some v)
    (ok : ZingCdn.delegate v coin ctx = .ok out) :
    ({ l.setVault out.vault with
      certs := ⟨out.recipient, out.certificate⟩ :: l.certs
      circulating := l.circulating - coin
      ids := ctx.freshId :: l.ids
      events := l.events ++ [.delegate out.event] } : VaultLedger).Valid := by
  have hmem := mem_of_vault? hv
  have hsolv := h.solvent v hmem
  have hsup := h.holdings_le hmem
  obtain ⟨-, hout, -⟩ := delegate_pool hsolv (by omega) ok
  obtain ⟨hpos, hmint, rfl⟩ := (delegate_eq_ok_iff hsolv (by omega)).mp ok
  refine h.update hout hmem rfl rfl (fun _ => List.mem_cons_of_mem _) ?_ ?_ ?_ ?_ ?_
  · rw [List.map_cons, List.nodup_cons]
    refine ⟨fun hin => ?_, h.certs_nodup⟩
    obtain ⟨c, hc, hk⟩ := List.mem_map.mp hin
    have hk' : c.id = ctx.freshId := hk
    exact fresh (hk' ▸ (h.cert_used c hc).1)
  · intro c hc
    rcases List.mem_cons.mp hc with rfl | hc'
    · exact ⟨List.mem_cons_self, List.mem_cons_of_mem _ (h.vault_used v hmem), hmint⟩
    · obtain ⟨h₁, h₂⟩ := h.cert_used c hc'
      exact ⟨List.mem_cons_of_mem _ h₁, List.mem_cons_of_mem _ h₂, h.cert_pos c hc'⟩
  · rw [liveShares_cons, if_pos rfl, ← h.shares v hmem]
    exact Nat.add_comm _ _
  · intro id hid
    rw [liveShares_cons, if_neg (fun heq => hid heq.symm), Nat.zero_add]
  · simp only [holdings]
    omega

/-- What an accepted burn of a live certificate returns: its payout is in the reserves. -/
theorem Valid.undelegate_out (h : l.Valid) {v : PeerVault} {c : OwnedCertificate}
    {ctx : TxContext} {out : Undelegated} (hv : v ∈ l.vaults) (hc : c ∈ l.certs)
    (ok : ZingCdn.undelegate v c.certificate ctx = .ok out) :
    let payout := (v.pool (h.solvent v hv)).payout c.certificate.shares
    v.id = c.certificate.vaultId ∧ c.certificate.shares ≤ v.totalShares ∧
      payout ≤ v.reserves ∧ out = {
        vault := { v with
          reserves := v.reserves - payout
          totalShares := v.totalShares - c.certificate.shares }
        event := ⟨ctx.sender, v.peerAddress, c.certificate.shares, payout⟩
        payout := ⟨ctx.sender, payout⟩ } := by
  have hsup := h.holdings_le hv
  have hid := undelegate_vaultId ok
  have hle := h.shares_le hv hc hid
  rw [undelegate_eq (h.solvent v hv) hid (h.cert_pos c hc) hle (by omega)] at ok
  exact ⟨hid, hle, SharePool.payout_le_reserves (p := v.pool (h.solvent v hv)) hle,
    (Except.ok.inj ok).symm⟩

/-- So does a burn. -/
theorem Valid.undelegate (h : l.Valid) {ctx : TxContext} {vault cert : ID}
    {c : OwnedCertificate} {v : PeerVault} {out : Undelegated} (hc : l.cert? cert = some c)
    (hv : l.vault? vault = some v) (ok : ZingCdn.undelegate v c.certificate ctx = .ok out) :
    ({ l.setVault out.vault with
      certs := KeyedList.remove OwnedCertificate.id cert l.certs
      circulating := l.circulating + out.payout.value
      events := l.events ++ [.undelegate out.event]
      transfers := l.transfers ++ [out.payout] } : VaultLedger).Valid := by
  have hmem := mem_of_vault? hv
  have hcmem := mem_of_cert? hc
  have hsolv := h.solvent v hmem
  have hsup := h.holdings_le hmem
  obtain ⟨hid, hle, hpay, rfl⟩ := h.undelegate_out hmem hcmem ok
  obtain ⟨-, hout, -⟩ := undelegate_pool hsolv hid (h.cert_pos c hcmem) hle (by omega) ok
  have hcid : cert = c.id := (id_of_cert? hc).symm
  have hlive := liveShares_remove h.certs_nodup hcmem
  subst hcid
  refine h.update hout hmem rfl rfl (fun _ => id) (KeyedList.nodup_remove h.certs_nodup _)
    ?_ ?_ ?_ ?_
  · intro d hd
    have hd' := (KeyedList.mem_remove.mp hd).1
    exact ⟨(h.cert_used d hd').1, (h.cert_used d hd').2, h.cert_pos d hd'⟩
  · have hv' := hlive v.id
    rw [if_pos hid.symm, ← h.shares v hmem] at hv'
    show v.totalShares - c.certificate.shares
      = liveShares (KeyedList.remove OwnedCertificate.id c.id l.certs) v.id
    omega
  · intro id hne
    have hother := hlive id
    rwa [if_neg (fun heq => hne (heq.symm.trans hid.symm)), Nat.add_zero] at hother
  · show l.circulating + (v.pool hsolv).payout c.certificate.shares
      + (v.reserves - (v.pool hsolv).payout c.certificate.shares + v.peerEarnings)
      = l.circulating + (v.reserves + v.peerEarnings)
    omega

/-- What an accepted payment into a vault of the ledger returns: the commission is part of it. -/
theorem Valid.pay_out (h : l.Valid) {v : PeerVault} {ctx : TxContext} {payee : Address}
    {blobHash : List UInt8} {coin : ℕ} {out : Paid} (hv : v ∈ l.vaults)
    (hcoin : coin ≤ l.circulating) (ok : ZingCdn.pay v payee blobHash coin ctx = .ok out) :
    v.commissionOn coin ≤ coin ∧ out = {
      vault := { v with
        peerEarnings := v.peerEarnings + v.commissionOn coin
        reserves := v.reserves + (coin - v.commissionOn coin) }
      rewards := ⟨v.peerAddress, coin, v.commissionOn coin⟩
      payment := ⟨ctx.sender, payee, blobHash, coin⟩ } := by
  have hsolv := h.solvent v hv
  have hsup := h.holdings_le hv
  exact ⟨PeerVault.commissionOn_le hsolv coin, ((pay_eq_ok_iff hsolv (by omega)).mp ok).2⟩

/-- So does a payment. -/
theorem Valid.pay (h : l.Valid) {ctx : TxContext} {vault : ID} {payee : Address}
    {blobHash : List UInt8} {coin : ℕ} {v : PeerVault} {out : Paid}
    (hcoin : coin ≤ l.circulating) (hv : l.vault? vault = some v)
    (ok : ZingCdn.pay v payee blobHash coin ctx = .ok out) :
    ({ l.setVault out.vault with
      circulating := l.circulating - coin
      events := l.events ++ [.rewards out.rewards, .payment out.payment] } :
        VaultLedger).Valid := by
  have hmem := mem_of_vault? hv
  have hsolv := h.solvent v hmem
  have hsup := h.holdings_le hmem
  obtain ⟨-, hout, -⟩ := pay_pool hsolv (by omega) ok
  obtain ⟨hcom, rfl⟩ := h.pay_out hmem hcoin ok
  refine h.update hout hmem rfl rfl (fun _ => id) h.certs_nodup ?_ (h.shares v hmem)
    (fun _ _ => rfl) ?_
  · exact fun c hc => ⟨(h.cert_used c hc).1, (h.cert_used c hc).2, h.cert_pos c hc⟩
  · simp only [holdings]
    omega

/-- So does a claim of earnings. -/
theorem Valid.claimEarnings (h : l.Valid) {ctx : TxContext} {vault : ID} {v : PeerVault}
    {out : EarningsClaimed} (hv : l.vault? vault = some v)
    (ok : ZingCdn.claimEarnings v ctx = .ok out) :
    ({ l.setVault out.vault with
      circulating := l.circulating + out.payout.value
      events := l.events ++ [.earningsClaimed out.event]
      transfers := l.transfers ++ [out.payout] } : VaultLedger).Valid := by
  have hmem := mem_of_vault? hv
  obtain ⟨-, hout, -⟩ := claimEarnings_pool (h.solvent v hmem) ok
  obtain ⟨-, -, rfl⟩ := claimEarnings_eq_ok_iff.mp ok
  refine h.update hout hmem rfl rfl (fun _ => id) h.certs_nodup ?_ (h.shares v hmem)
    (fun _ _ => rfl) ?_
  · exact fun c hc => ⟨(h.cert_used c hc).1, (h.cert_used c hc).2, h.cert_pos c hc⟩
  · simp only [holdings]
    omega

/-- And so does a transfer of a certificate. -/
theorem Valid.transfer (h : l.Valid) {cert : ID} {recipient : Address}
    {c : OwnedCertificate} (hc : l.cert? cert = some c) :
    ({ l with certs := KeyedList.replace OwnedCertificate.id ⟨recipient, c.certificate⟩ l.certs } :
      VaultLedger).Valid := by
  have hcmem := mem_of_cert? hc
  refine ⟨h.vaults_nodup, ?_, h.vault_used, ?_, ?_, h.solvent, ?_, h.supply⟩
  · rw [KeyedList.map_key_replace]
    exact h.certs_nodup
  · intro d hd
    rcases KeyedList.mem_replace hd with rfl | ⟨hd', -⟩
    · exact h.cert_used c hcmem
    · exact h.cert_used d hd'
  · intro d hd
    rcases KeyedList.mem_replace hd with rfl | ⟨hd', -⟩
    · exact h.cert_pos c hcmem
    · exact h.cert_pos d hd'
  · intro v hv
    rw [liveShares_replace h.certs_nodup hcmem]
    exact h.shares v hv

/-- Every step of a run keeps the invariant. -/
theorem Valid.step (h : l.Valid) (hs : Step l l') : l'.Valid := by
  cases hs with
  | tx ctx c hsub =>
      cases accepted_of_submit hsub with
      | createVault fresh ok =>
          obtain ⟨hbps, rfl⟩ := createVault_eq_ok_iff.mp ok
          exact h.addVault rfl fresh rfl rfl rfl rfl ⟨le_rfl, hbps⟩ rfl rfl
      | newVault fresh ok =>
          obtain ⟨-, rfl, rfl⟩ := newVault_eq_ok_iff.mp ok
          exact h.addVault rfl fresh rfl rfl rfl rfl
            ⟨le_rfl, show (1000 : ℕ) ≤ 10000 by decide⟩ rfl rfl
      | delegate fresh hcoin hv ok => exact h.delegate fresh hcoin hv ok
      | undelegate hc owner hv ok => exact h.undelegate hc hv ok
      | pay hcoin hv ok => exact h.pay hcoin hv ok
      | claimEarnings hv ok => exact h.claimEarnings hv ok
      | transfer hc owner => exact h.transfer hc
  | supply circulating hsup =>
      exact ⟨h.vaults_nodup, h.certs_nodup, h.vault_used, h.cert_used, h.cert_pos, h.solvent,
        h.shares, hsup⟩

/-- Every run keeps the invariant. -/
theorem Valid.run (h : l.Valid) (hr : ReflTransGen Step l l') : l'.Valid :=
  Transition.invariant_of_run Valid (fun _ _ => Valid.step) h hr

/-- **The invariant holds of every reachable ledger.** -/
theorem valid_of_reachable (h : l.Reachable) : l.Valid :=
  Transition.Reachable.invariant Valid (fun _ => valid_of_genesis) (fun _ _ => Valid.step) h

/-! ### What the invariant guarantees -/

/-- **Vault solvency.** In every reachable ledger the shares of each vault are those of
its live certificates, every share is backed, and the commission is a fraction; so
burning a live certificate of the vault never aborts, paying a positive coin never
aborts, and delegating a positive coin aborts only when shares are outstanding and the
coin is worth less than one of them. -/
theorem vault_solvency {l : VaultLedger} (h : l.Reachable) {v : PeerVault}
    (hv : v ∈ l.vaults) :
    v.totalShares = liveShares l.certs v.id ∧ v.totalShares ≤ v.reserves ∧
      v.commissionBps ≤ 10000 ∧
      (∀ c ∈ l.certs, c.certificate.vaultId = v.id → ∀ ctx,
        ∃ out, ZingCdn.undelegate v c.certificate ctx = .ok out) ∧
      (∀ payee blobHash coin ctx, 0 < coin → coin ≤ l.circulating →
        ∃ out, ZingCdn.pay v payee blobHash coin ctx = .ok out) ∧
      (∀ coin ctx a, 0 < coin → coin ≤ l.circulating →
        ZingCdn.delegate v coin ctx = .error a →
          0 < v.totalShares ∧ coin * v.totalShares / v.reserves = 0) := by
  have hvalid := valid_of_reachable h
  have hsolv := hvalid.solvent v hv
  have hsup := hvalid.holdings_le hv
  refine ⟨hvalid.shares v hv, hsolv.backed, hsolv.commission, ?_, ?_, ?_⟩
  · intro c hc hid ctx
    exact ⟨_, undelegate_eq hsolv hid.symm (hvalid.cert_pos c hc)
      (hvalid.shares_le hv hc hid.symm) (by omega) ctx⟩
  · intro payee blobHash coin ctx hpos hcoin
    exact ⟨_, pay_eq hsolv hpos (by omega) payee blobHash ctx⟩
  · intro coin ctx a hpos hcoin herr
    rw [delegate_eq hsolv (by omega), if_pos hpos] at herr
    split at herr
    case isTrue => simp at herr
    rename_i hmint
    have hshares : 0 < v.totalShares := by
      by_contra h0
      rw [SharePool.minted_of_empty (p := v.pool hsolv) (Nat.eq_zero_of_not_pos h0)] at hmint
      exact hmint hpos
    refine ⟨hshares, ?_⟩
    rw [SharePool.minted_of_pos (p := v.pool hsolv) hshares] at hmint
    exact Nat.eq_zero_of_not_pos hmint

/-- A vault with one delegation of five frost. -/
def firstDelegation : VaultLedger where
  vaults := [⟨sampleId 1, sampleAddress 1, 5, 5, 1000, 0⟩]
  certs := [⟨sampleAddress 2, ⟨sampleId 2, sampleId 1, 5⟩⟩]
  peerVaults := [(sampleAddress 1, sampleId 1)]
  circulating := 95
  ids := [sampleId 2, sampleId 1]
  events := [.delegate ⟨sampleAddress 2, sampleAddress 1, 5, 5⟩]
  transfers := []

/-- A vault with one delegation. -/
theorem reachable_firstDelegation : firstDelegation.Reachable :=
  reachable_of_replay 100
    [(⟨sampleAddress 1, sampleId 1⟩, .newVault),
      (⟨sampleAddress 2, sampleId 2⟩, .delegate (sampleId 1) 5)] (by decide) (by decide)

/-- Its certificate can be burned. -/
theorem vault_solvency_firstDelegation :
    ∃ out, ZingCdn.undelegate ⟨sampleId 1, sampleAddress 1, 5, 5, 1000, 0⟩
      ⟨sampleId 2, sampleId 1, 5⟩ ⟨sampleAddress 2, sampleId 3⟩ = .ok out :=
  (vault_solvency reachable_firstDelegation List.mem_cons_self).2.2.2.1
    ⟨sampleAddress 2, ⟨sampleId 2, sampleId 1, 5⟩⟩ List.mem_cons_self rfl _

end VaultLedger

end ZingCdn
