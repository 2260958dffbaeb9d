import ZingCdn.Solvency

/-!
# The Exchange Rate along Runs

What a certificate redeems for, followed along every run of the vault contracts. The
rate `reserves / totalShares` of a vault never falls while shares are outstanding, in
the exact integer form `R * T' ≤ R' * T`; a certificate that stays outstanding therefore
never redeems for less than before, whatever the other holders, the payers and the peer
do. The two ends of a run are compared through the certificate: object ids are never
reused, so a certificate present at both ends was outstanding all along
(`Live.of_run`), and its vault had shares at every state in between.

## Main results

* `vaultsChange_of_step`: a step is at most one operation on the pool of one vault.
* `exchange_rate_monotone`: no step lowers the rate, and no run lowers the payout of a
  certificate outstanding throughout.
* `principal_protected_iff`: a deposit of `w` can be redeemed for at least `w - 1` in
  every later state exactly when its shares were not rounded by more than the pool's
  shares; `not_principal_protected` is the donation attack on the general statement.
* `exchange_rate_view`: the view answers the scaled rate exactly as long as it is a `u64`;
  `not_exchange_rate_view` is a share worth more than that.
* `no_free_profit_iff`: depositing and redeeming at once pays at most the deposit exactly
  when the vault had shares outstanding or no reserves; `not_no_free_profit` is a vault
  paid before its first delegation.
-/

open Relation

namespace ZingCdn

/-- What the vault pays for `shares` shares, rounded down. -/
def PeerVault.payout (v : PeerVault) (shares : ℕ) : ℕ := shares * v.reserves / v.totalShares

/-- The vault's rate does not exceed that of `w`, by cross-multiplication. -/
def PeerVault.RateLE (v w : PeerVault) : Prop :=
  v.reserves * w.totalShares ≤ w.reserves * v.totalShares

theorem PeerVault.payout_eq {v : PeerVault} (h : v.Solvent) (shares : ℕ) :
    (v.pool h).payout shares = v.payout shares := rfl

theorem PeerVault.rateLE_iff {v w : PeerVault} (hv : v.Solvent) (hw : w.Solvent) :
    (v.pool hv).RateLE (w.pool hw) ↔ v.RateLE w := Iff.rfl

namespace VaultLedger

variable {l l' : VaultLedger}

/-- The certificate is outstanding, whoever owns it. -/
def Live (l : VaultLedger) (cert : ShareCertificate) : Prop :=
  ∃ c ∈ l.certs, c.certificate = cert

/-! ### One step -/

/-- What a step does to the vaults: nothing, or a vault with a fresh id comes in, or a vault is
updated by at most one operation on its pool. -/
inductive VaultsChange (l l' : VaultLedger) : Prop
  | same (hvaults : l'.vaults = l.vaults)
  | added {v : PeerVault} (hvaults : l'.vaults = v :: l.vaults) (fresh : v.id ∉ l.ids)
  | updated {w u : PeerVault} (hw : w ∈ l.vaults) (hid : w.id = u.id)
      (hvaults : l'.vaults = (l.setVault u).vaults) (hsolv : w.Solvent) (hout : u.Solvent)
      (hpool : ReflGen SharePool.Step (w.pool hsolv) (u.pool hout))

/-- **The ledger refines its pools**: a step is at most one operation on one of them. -/
theorem vaultsChange_of_step (h : l.Valid) (hs : Step l l') : VaultsChange l l' := by
  cases hs with
  | tx ctx c hsub =>
      cases accepted_of_submit hsub with
      | createVault fresh ok =>
          obtain ⟨-, rfl⟩ := createVault_eq_ok_iff.mp ok
          exact .added rfl fresh
      | newVault fresh ok =>
          obtain ⟨-, -, rfl⟩ := newVault_eq_ok_iff.mp ok
          exact .added rfl fresh
      | @delegate _ coin w out fresh hcoin hw ok =>
          have hwmem := mem_of_vault? hw
          have hsolv := h.solvent w hwmem
          have hsup := h.holdings_le hwmem
          obtain ⟨hid, hout, hpool⟩ := delegate_pool hsolv (by omega) ok
          exact .updated hwmem hid rfl hsolv hout (hpool ▸ .single (.deposit coin))
      | @undelegate _ cert c w out hc owner hw ok =>
          have hwmem := mem_of_vault? hw
          have hcmem := mem_of_cert? hc
          have hsolv := h.solvent w hwmem
          have hsup := h.holdings_le hwmem
          have hwc := undelegate_vaultId ok
          have hle := h.shares_le hwmem hcmem hwc
          obtain ⟨hid, hout, hpool⟩ :=
            undelegate_pool hsolv hwc (h.cert_pos c hcmem) hle (by omega) ok
          exact .updated hwmem hid rfl hsolv hout (hpool ▸ .single (.redeem hle))
      | @pay _ payee blobHash coin w out hcoin hw ok =>
          have hwmem := mem_of_vault? hw
          have hsolv := h.solvent w hwmem
          have hsup := h.holdings_le hwmem
          obtain ⟨hid, hout, hpool⟩ := pay_pool hsolv (by omega) ok
          exact .updated hwmem hid rfl hsolv hout (hpool ▸ .single (.donate _))
      | claimEarnings hw ok =>
          have hwmem := mem_of_vault? hw
          have hsolv := h.solvent _ hwmem
          obtain ⟨hid, hout, hpool⟩ := claimEarnings_pool hsolv ok
          exact .updated hwmem hid rfl hsolv hout (hpool ▸ .refl)
      | transfer hc owner => exact .same rfl
  | supply circulating hsup => exact .same rfl

/-- **No step lowers a rate.** A vault with shares outstanding has at least the same rate
after any step. -/
theorem rateLE_of_step (h : l.Valid) (hs : Step l l') {v v' : PeerVault}
    (hv : v ∈ l.vaults) (hv' : v' ∈ l'.vaults) (hid : v'.id = v.id)
    (hpos : 0 < v.totalShares) : v.RateLE v' := by
  -- a vault the step does not touch keeps its rate
  have hsame : v' ∈ l.vaults → v.RateLE v' := fun hmem =>
    KeyedList.eq_of_key_eq h.vaults_nodup hv hmem hid.symm ▸ le_rfl
  cases vaultsChange_of_step h hs with
  | same hvaults => exact hsame (hvaults ▸ hv')
  | added hvaults fresh =>
      rcases List.mem_cons.mp (hvaults ▸ hv') with rfl | hmem
      · -- a vault under a fresh id is not `v`
        exact absurd (hid.symm ▸ h.vault_used v hv) fresh
      · exact hsame hmem
  | updated hw hwu hvaults hsolv hout hpool =>
      rcases KeyedList.mem_replace (hvaults ▸ hv') with rfl | ⟨hmem, -⟩
      · -- the vault the step updates is `v` itself before the update
        obtain rfl := KeyedList.eq_of_key_eq h.vaults_nodup hv hw (hid.symm.trans hwu.symm)
        rw [← PeerVault.rateLE_iff hsolv hout]
        exact SharePool.rateLE_of_reflGen hpool hpos
      · exact hsame hmem

/-- No step removes a vault. -/
theorem exists_vault_of_step (h : l.Valid) (hs : Step l l') {v : PeerVault}
    (hv : v ∈ l.vaults) : ∃ v' ∈ l'.vaults, v'.id = v.id := by
  cases vaultsChange_of_step h hs with
  | same hvaults => exact ⟨v, hvaults ▸ hv, rfl⟩
  | added hvaults fresh => exact ⟨v, hvaults ▸ List.mem_cons_of_mem _ hv, rfl⟩
  | @updated w u hw hid hvaults hsolv hout hpool =>
      rw [hvaults]
      by_cases hk : v.id = u.id
      · exact ⟨u, KeyedList.mem_replace_self hw hid, hk.symm⟩
      · exact ⟨v, KeyedList.mem_replace_of_ne hv hk, rfl⟩

/-- Object ids stay used. -/
theorem ids_subset_of_step (hs : Step l l') {id : ID} (hid : id ∈ l.ids) : id ∈ l'.ids := by
  cases hs with
  | tx ctx c hsub =>
      cases accepted_of_submit hsub with
      | createVault | newVault | delegate => exact List.mem_cons_of_mem _ hid
      | undelegate | pay | claimEarnings | transfer => exact hid
  | supply => exact hid

/-- A certificate with an old id that is outstanding after a step was so before it: new
certificates carry fresh ids, and nothing alters a certificate. -/
theorem Live.of_step (h : l.Valid) (hs : Step l l') {cert : ShareCertificate}
    (hid : cert.id ∈ l.ids) (hlive : l'.Live cert) : l.Live cert := by
  obtain ⟨c, hc, rfl⟩ := hlive
  cases hs with
  | tx ctx call hsub =>
      cases accepted_of_submit hsub with
      | createVault | newVault | pay | claimEarnings => exact ⟨c, hc, rfl⟩
      | @delegate _ coin w out fresh hcoin hw ok =>
          rcases List.mem_cons.mp hc with rfl | hc'
          · have hwmem := mem_of_vault? hw
            have hsup := h.holdings_le hwmem
            obtain ⟨-, -, rfl⟩ := (delegate_eq_ok_iff (h.solvent w hwmem) (by omega)).mp ok
            exact absurd hid fresh
          · exact ⟨c, hc', rfl⟩
      | undelegate => exact ⟨c, (KeyedList.mem_remove.mp hc).1, rfl⟩
      | transfer hd owner =>
          rcases KeyedList.mem_replace hc with rfl | ⟨hc', -⟩
          · exact ⟨_, mem_of_cert? hd, rfl⟩
          · exact ⟨c, hc', rfl⟩
  | supply => exact ⟨c, hc, rfl⟩

/-! ### Runs -/

/-- A live certificate's vault exists and has shares outstanding. -/
theorem Live.totalShares_pos (h : l.Valid) {cert : ShareCertificate} (hlive : l.Live cert)
    {v : PeerVault} (hv : v ∈ l.vaults) (hid : v.id = cert.vaultId) : 0 < v.totalShares := by
  obtain ⟨c, hc, rfl⟩ := hlive
  exact lt_of_lt_of_le (h.cert_pos c hc) (h.shares_le hv hc hid)

/-- What relates the two ends of a run: ids stay used, vaults stay, and a certificate
with an id used at the start and outstanding at the end was outstanding at the start,
its vault's rate having not fallen since. -/
def RunRel (l l' : VaultLedger) : Prop :=
  (∀ id ∈ l.ids, id ∈ l'.ids) ∧
  (∀ v ∈ l.vaults, ∃ v' ∈ l'.vaults, v'.id = v.id) ∧
  ∀ cert : ShareCertificate, cert.id ∈ l.ids → l'.Live cert → l.Live cert ∧
    ∀ v ∈ l.vaults, ∀ v' ∈ l'.vaults, v.id = cert.vaultId → v'.id = cert.vaultId → v.RateLE v'

/-- A ledger is related to itself. -/
theorem RunRel.refl (hl : l.Valid) : RunRel l l := by
  refine ⟨fun _ => id, fun v hv => ⟨v, hv, rfl⟩, fun cert _ hlive => ⟨hlive, ?_⟩⟩
  intro v hv v' hv' hid hid'
  exact KeyedList.eq_of_key_eq hl.vaults_nodup hv hv' (hid.trans hid'.symm) ▸ le_rfl

/-- One more step: the rates compose because the certificate keeps its vault's shares positive
at the state in between. -/
theorem RunRel.snoc {l₀ : VaultLedger} (h₀ : l₀.Valid) (h : l.Valid) (hrel : RunRel l₀ l)
    (hstep : Step l l') : RunRel l₀ l' := by
  obtain ⟨hids, hvaults, hcerts⟩ := hrel
  refine ⟨fun id hid => ids_subset_of_step hstep (hids id hid), ?_, ?_⟩
  · intro v hv
    obtain ⟨u, hu, hk⟩ := hvaults v hv
    obtain ⟨v', hv', hk'⟩ := exists_vault_of_step h hstep hu
    exact ⟨v', hv', hk'.trans hk⟩
  · intro cert hid hlive'
    have hlive := hlive'.of_step h hstep (hids _ hid)
    obtain ⟨hlive₀, hrate⟩ := hcerts cert hid hlive
    refine ⟨hlive₀, fun v hv v' hv' hvid hvid' => ?_⟩
    obtain ⟨u, hu, hk⟩ := hvaults v hv
    have huid : u.id = cert.vaultId := hk.trans hvid
    have hupos := hlive.totalShares_pos h hu huid
    have hfirst := hrate v hv u hu hvid huid
    have hlast := rateLE_of_step h hstep hu hv' (hvid'.trans huid.symm) hupos
    have hv' := (h.step hstep).solvent v' hv'
    exact SharePool.RateLE.trans (p := v.pool (h₀.solvent v hv)) (q := u.pool (h.solvent u hu))
      (r := v'.pool hv') hfirst hlast hupos

/-- Every run relates its ends. -/
theorem runRel_of_run (h : l.Valid) (hr : ReflTransGen Step l l') : RunRel l l' :=
  Transition.runs_of_step Valid RunRel (fun _ _ => Valid.step) (fun _ => RunRel.refl)
    (fun _ _ _ => RunRel.snoc) h hr

/-- A higher rate never pays less for the same shares. -/
theorem payout_mono {v v' : PeerVault} (hv : v.Solvent) (hv' : v'.Solvent)
    (hrate : v.RateLE v') (hpos : 0 < v'.totalShares) (shares : ℕ) :
    v.payout shares ≤ v'.payout shares :=
  SharePool.payout_mono ((PeerVault.rateLE_iff hv hv').mpr hrate) hpos shares

/-- **Exchange-rate monotonicity.** No step from a reachable ledger lowers the rate of a
vault that has shares before and after it; and along every run, what a certificate
outstanding at both ends redeems for has not decreased. -/
theorem exchange_rate_monotone {l : VaultLedger} (h : l.Reachable) :
    (∀ l', Step l l' → ∀ v ∈ l.vaults, ∀ v' ∈ l'.vaults, v'.id = v.id →
      0 < v.totalShares → 0 < v'.totalShares →
        v.reserves * v'.totalShares ≤ v'.reserves * v.totalShares) ∧
    (∀ l', ReflTransGen Step l l' → ∀ cert, l.Live cert → l'.Live cert →
      ∀ v ∈ l.vaults, ∀ v' ∈ l'.vaults, v.id = cert.vaultId → v'.id = cert.vaultId →
        cert.shares * v.reserves / v.totalShares
          ≤ cert.shares * v'.reserves / v'.totalShares) := by
  have hvalid := valid_of_reachable h
  refine ⟨?_, ?_⟩
  · intro l' hs v hv v' hv' hid hpos _
    exact rateLE_of_step hvalid hs hv hv' hid hpos
  · intro l' hr cert hlive hlive' v hv v' hv' hid hid'
    have hvalid' := hvalid.run hr
    have hused : cert.id ∈ l.ids := by
      obtain ⟨c, hc, rfl⟩ := hlive
      exact (hvalid.cert_used c hc).1
    obtain ⟨-, -, hcerts⟩ := runRel_of_run hvalid hr
    have hrate := (hcerts cert hused hlive').2 v hv v' hv' hid hid'
    exact payout_mono (hvalid.solvent v hv) (hvalid'.solvent v' hv') hrate
      (hlive'.totalShares_pos hvalid' hv' hid') cert.shares

/-- The ledger after a payment of ten frost to the vault of the first delegation. -/
def firstPayment : VaultLedger where
  vaults := [⟨sampleId 1, sampleAddress 1, 14, 5, 1000, 1⟩]
  certs := [⟨sampleAddress 2, ⟨sampleId 2, sampleId 1, 5⟩⟩]
  peerVaults := [(sampleAddress 1, sampleId 1)]
  circulating := 85
  ids := [sampleId 2, sampleId 1]
  events := [.delegate ⟨sampleAddress 2, sampleAddress 1, 5, 5⟩,
    .rewards ⟨sampleAddress 1, 10, 1⟩,
    .payment ⟨sampleAddress 3, sampleAddress 1, [], 10⟩]
  transfers := []

theorem reachable_firstPayment : firstPayment.Reachable :=
  reachable_firstDelegation.snoc
    (.tx ⟨sampleAddress 3, sampleId 3⟩ (.pay (sampleId 1) (sampleAddress 1) [] 10) (by decide))

theorem exchange_rate_monotone_firstPayment : 5 * 5 / 5 ≤ 5 * 14 / 5 :=
  (exchange_rate_monotone reachable_firstDelegation).2 firstPayment
    (.single (.tx ⟨sampleAddress 3, sampleId 3⟩ (.pay (sampleId 1) (sampleAddress 1) [] 10)
      (by decide)))
    ⟨sampleId 2, sampleId 1, 5⟩ ⟨_, List.mem_cons_self, rfl⟩ ⟨_, List.mem_cons_self, rfl⟩
    _ List.mem_cons_self _ List.mem_cons_self rfl rfl

/-! ### The deposit's round trip -/

/-- What burning a live certificate pays. -/
theorem undelegate_value (h : l.Valid) {cert : ShareCertificate} (hlive : l.Live cert)
    {v : PeerVault} (hv : v ∈ l.vaults) {ctx : TxContext} {out : Undelegated}
    (hout : ZingCdn.undelegate v cert ctx = .ok out) :
    out.payout.value = v.payout cert.shares := by
  obtain ⟨c, hc, rfl⟩ := hlive
  obtain ⟨-, -, -, rfl⟩ := h.undelegate_out hv hc hout
  rfl

/-- Burning a certificate later pays at least what it was worth. -/
theorem payout_le_of_run (h : l.Valid) {cert : ShareCertificate} (hlive : l.Live cert)
    {v : PeerVault} (hv : v ∈ l.vaults) (hid : v.id = cert.vaultId)
    (hr : ReflTransGen Step l l') (hlive' : l'.Live cert) {v' : PeerVault}
    (hv' : v' ∈ l'.vaults) {ctx : TxContext} {out : Undelegated}
    (hout : ZingCdn.undelegate v' cert ctx = .ok out) :
    v.payout cert.shares ≤ out.payout.value := by
  have h' := h.run hr
  have hid' := undelegate_vaultId hout
  have hused : cert.id ∈ l.ids := by
    obtain ⟨c, hc, rfl⟩ := hlive
    exact (h.cert_used c hc).1
  have hrate := ((runRel_of_run h hr).2.2 cert hused hlive').2 v hv v' hv' hid hid'
  rw [undelegate_value h' hlive' hv' hout]
  exact payout_mono (h.solvent v hv) (h'.solvent v' hv') hrate
    (hlive'.totalShares_pos h' hv' hid') cert.shares

/-- What an accepted deposit leaves: the updated vault, its pool, and the certificate. -/
theorem delegated_cases (h : l.Valid) {v : PeerVault} (hv : v ∈ l.vaults) {w : ℕ}
    (hw : w ≤ l.circulating) {ctx : TxContext} {out : Delegated}
    (hout : ZingCdn.delegate v w ctx = .ok out) :
    0 < w ∧ out.certificate = ⟨ctx.freshId, v.id, (v.pool (h.solvent v hv)).minted w⟩ ∧
      v.id = out.vault.id ∧ ∃ hsolv : out.vault.Solvent,
        out.vault.pool hsolv = (v.pool (h.solvent v hv)).deposit w := by
  have hsup := h.holdings_le hv
  obtain ⟨hid, hsolv, hpool⟩ := delegate_pool (h.solvent v hv) (by omega) hout
  obtain ⟨hw0, -, rfl⟩ := (delegate_eq_ok_iff (h.solvent v hv) (by omega)).mp hout
  exact ⟨hw0, rfl, hid, hsolv, hpool⟩

/-- What an accepted deposit does to the vaults and the certificates. -/
theorem delegate_of_submit {ctx : TxContext} {vault : ID} {w : ℕ} {v : PeerVault}
    (hsub : l.submit ctx (.delegate vault w) = .ok l') (hv : l.vault? vault = some v) :
    w ≤ l.circulating ∧ ∃ out, ZingCdn.delegate v w ctx = .ok out ∧
      l'.vaults = KeyedList.replace PeerVault.id out.vault l.vaults ∧
      l'.certs = ⟨out.recipient, out.certificate⟩ :: l.certs := by
  have hcases := accepted_of_submit hsub
  cases hcases with
  | @delegate _ _ u out _ hw hu hout =>
      obtain rfl : u = v := Option.some.inj (hu.symm.trans hv)
      exact ⟨hw, out, hout, rfl, rfl⟩

/-- **Principal protection from here on**: whatever happens next, burning the certificate
pays at least the deposit `w` up to one frost. -/
def PrincipalProtected (l : VaultLedger) (cert : ShareCertificate) (w : ℕ) : Prop :=
  ∀ l', ReflTransGen Step l l' → l'.Live cert → ∀ v ∈ l'.vaults, ∀ ctx out,
    ZingCdn.undelegate v cert ctx = .ok out → w ≤ out.payout.value + 1

/-- **When the principal is protected.** The certificate of a deposit of `w` pays at least
`w - 1` in every later state exactly when the vault had no shares outstanding, or the
rounding of the minted shares is at most the shares outstanding afterwards. -/
theorem principal_protected_iff {l l₁ : VaultLedger} (h : l.Reachable) {ctx : TxContext}
    {vault : ID} {w : ℕ} {v : PeerVault} {c : OwnedCertificate}
    (hsub : l.submit ctx (.delegate vault w) = .ok l₁) (hv : l.vault? vault = some v)
    (hc : l₁.cert? ctx.freshId = some c) :
    PrincipalProtected l₁ c.certificate w ↔
      v.totalShares = 0 ∨
        w * v.totalShares % v.reserves ≤ v.totalShares + w * v.totalShares / v.reserves := by
  have hvalid := valid_of_reachable h
  have hvalid₁ := hvalid.step (.tx ctx _ hsub)
  have hmem := mem_of_vault? hv
  obtain ⟨hw, out, hout, hvaults₁, hcerts₁⟩ := delegate_of_submit hsub hv
  obtain ⟨hw0, hcert, hid, hsolv₁, hpool⟩ := delegated_cases hvalid hmem hw hout
  have hout₁ : out.vault ∈ l₁.vaults := hvaults₁ ▸ KeyedList.mem_replace_self hmem hid
  -- the new certificate is the only one under the fresh id
  have hceq : c = ⟨out.recipient, out.certificate⟩ := by
    refine KeyedList.eq_of_key_eq hvalid₁.certs_nodup (mem_of_cert? hc)
      (hcerts₁ ▸ List.mem_cons_self) ?_
    rw [id_of_cert? hc]
    show ctx.freshId = out.certificate.id
    rw [hcert]
  subst hceq
  have hlive : l₁.Live out.certificate := ⟨_, mem_of_cert? hc, rfl⟩
  have hvid : out.vault.id = out.certificate.vaultId := by rw [hcert, ← hid]
  -- what the certificate is worth right after the deposit
  have hworth : out.vault.payout out.certificate.shares
      = ((v.pool (hvalid.solvent v hmem)).deposit w).payout
          ((v.pool (hvalid.solvent v hmem)).minted w) := by
    rw [← PeerVault.payout_eq hsolv₁, hpool, hcert]
  have hnow : PrincipalProtected l₁ out.certificate w ↔
      w ≤ out.vault.payout out.certificate.shares + 1 := by
    constructor
    · intro hprot
      have hsup := hvalid₁.holdings_le hout₁
      have hburn := undelegate_eq hsolv₁ hvid (hvalid₁.cert_pos _ (mem_of_cert? hc))
        (hvalid₁.shares_le hout₁ (mem_of_cert? hc) hvid) (by omega) ctx
      exact hprot _ .refl hlive _ hout₁ ctx _ hburn
    · intro hle l' hr hlive' v' hv' ctx' back hback
      exact le_trans hle (Nat.add_le_add_right
        (payout_le_of_run hvalid₁ hlive hout₁ hvid hr hlive' hv' hback) 1)
  rw [hnow, hworth]
  rcases Nat.eq_zero_or_pos v.totalShares with h0 | hpos
  · rw [SharePool.payout_deposit_of_empty (p := v.pool _) h0 hw0]
    exact ⟨fun _ => .inl h0, fun _ => by simp only [PeerVault.pool_reserves]; omega⟩
  · rw [SharePool.le_payout_deposit_add_one_iff (p := v.pool _) hpos,
      SharePool.minted_of_pos (p := v.pool _) hpos]
    exact ⟨.inr, fun hor => hor.resolve_left hpos.ne'⟩

/-- A vault with one share worth 1801 frost: its only delegator deposited one frost and
paid 2000 into the vault. -/
def inflatedVault : VaultLedger where
  vaults := [⟨sampleId 1, sampleAddress 1, 1801, 1, 1000, 200⟩]
  certs := [⟨sampleAddress 2, ⟨sampleId 2, sampleId 1, 1⟩⟩]
  peerVaults := [(sampleAddress 1, sampleId 1)]
  circulating := 7999
  ids := [sampleId 2, sampleId 1]
  events := [.delegate ⟨sampleAddress 2, sampleAddress 1, 1, 1⟩,
    .rewards ⟨sampleAddress 1, 2000, 200⟩,
    .payment ⟨sampleAddress 2, sampleAddress 1, [], 2000⟩]
  transfers := []

theorem reachable_inflatedVault : inflatedVault.Reachable :=
  reachable_of_replay 10000
    [(⟨sampleAddress 1, sampleId 1⟩, .newVault),
      (⟨sampleAddress 2, sampleId 2⟩, .delegate (sampleId 1) 1),
      (⟨sampleAddress 2, sampleId 3⟩, .pay (sampleId 1) (sampleAddress 1) [] 2000)]
    (by decide) (by decide)

/-- The inflated vault after another holder deposits 3600 frost, for a single share. -/
def roundedDeposit : VaultLedger :=
  { inflatedVault with
    vaults := [⟨sampleId 1, sampleAddress 1, 5401, 2, 1000, 200⟩]
    certs := ⟨sampleAddress 3, ⟨sampleId 3, sampleId 1, 1⟩⟩ :: inflatedVault.certs
    circulating := 4399
    ids := sampleId 3 :: inflatedVault.ids
    events := inflatedVault.events ++
      [.delegate ⟨sampleAddress 3, sampleAddress 1, 3600, 1⟩] }

/-- **The principal is not always protected**: the holder of 3600 frost in the inflated
vault gets 2700 back. -/
theorem not_principal_protected :
    ¬ ∀ l l₁ : VaultLedger, l.Reachable → ∀ ctx vault w c,
      l.submit ctx (.delegate vault w) = .ok l₁ → l₁.cert? ctx.freshId = some c →
        PrincipalProtected l₁ c.certificate w := by
  intro hprot
  have hburn := hprot inflatedVault roundedDeposit reachable_inflatedVault
    ⟨sampleAddress 3, sampleId 3⟩ (sampleId 1) 3600
    ⟨sampleAddress 3, ⟨sampleId 3, sampleId 1, 1⟩⟩ (by decide) (by decide)
    roundedDeposit .refl ⟨_, List.mem_cons_self, rfl⟩ _ List.mem_cons_self
    ⟨sampleAddress 3, sampleId 4⟩
    ⟨⟨sampleId 1, sampleAddress 1, 2701, 1, 1000, 200⟩,
      ⟨sampleAddress 3, sampleAddress 1, 1, 2700⟩, ⟨sampleAddress 3, 2700⟩⟩ (by decide)
  exact absurd hburn (by decide)

/-- The ledger after the first payment and a second deposit, of seven frost. -/
def secondDeposit : VaultLedger :=
  { firstPayment with
    vaults := [⟨sampleId 1, sampleAddress 1, 21, 7, 1000, 1⟩]
    certs := ⟨sampleAddress 3, ⟨sampleId 3, sampleId 1, 2⟩⟩ :: firstPayment.certs
    circulating := 78
    ids := sampleId 3 :: firstPayment.ids
    events := firstPayment.events ++ [.delegate ⟨sampleAddress 3, sampleAddress 1, 7, 2⟩] }

theorem principal_protected_secondDeposit :
    PrincipalProtected secondDeposit ⟨sampleId 3, sampleId 1, 2⟩ 7 :=
  (principal_protected_iff (c := ⟨sampleAddress 3, ⟨sampleId 3, sampleId 1, 2⟩⟩)
    (v := ⟨sampleId 1, sampleAddress 1, 14, 5, 1000, 1⟩) reachable_firstPayment
    (by decide : firstPayment.submit ⟨sampleAddress 3, sampleId 3⟩ (.delegate (sampleId 1) 7)
      = .ok secondDeposit) (by decide) (by decide)).mpr
    (.inr (by decide : 7 * 5 % 14 ≤ 5 + 7 * 5 / 14))

/-- **No free profit.** Depositing `w` and burning the certificate at once always
succeeds, and pays at most `w` exactly when the vault had shares outstanding or held
nothing. -/
theorem no_free_profit_iff {l : VaultLedger} (h : l.Reachable) {v : PeerVault}
    (hv : v ∈ l.vaults) {w : ℕ} (hw : w ≤ l.circulating) {ctx : TxContext} {out : Delegated}
    (hout : ZingCdn.delegate v w ctx = .ok out) :
    ∃ back, ZingCdn.undelegate out.vault out.certificate ctx = .ok back ∧
      (back.payout.value ≤ w ↔ 0 < v.totalShares ∨ v.reserves = 0) := by
  have hvalid := valid_of_reachable h
  have hsolv := hvalid.solvent v hv
  have hsup := hvalid.holdings_le hv
  obtain ⟨hw0, hcert, hid, hsolv₁, hpool⟩ := delegated_cases hvalid hv hw hout
  have hres : out.vault.reserves = v.reserves + w := congrArg SharePool.reserves hpool
  have hsum : out.vault.reserves ≤ u64Max := by omega
  have hshares : out.vault.totalShares = v.totalShares + (v.pool hsolv).minted w :=
    congrArg SharePool.shares hpool
  have hmint : 0 < out.certificate.shares := by
    obtain ⟨-, hpos, rfl⟩ := (delegate_eq_ok_iff hsolv (by omega)).mp hout
    exact hpos
  have hvid : out.vault.id = out.certificate.vaultId := by rw [hcert, ← hid]
  have hle : out.certificate.shares ≤ out.vault.totalShares := by
    rw [hshares, hcert]
    exact Nat.le_add_left _ _
  refine ⟨_, undelegate_eq hsolv₁ hvid hmint hle hsum ctx, ?_⟩
  show (out.vault.pool hsolv₁).payout out.certificate.shares ≤ w ↔ _
  rw [hpool, hcert]
  rcases Nat.eq_zero_or_pos v.totalShares with h0 | hpos
  · rw [SharePool.payout_deposit_of_empty (p := v.pool hsolv) h0 hw0, PeerVault.pool_reserves]
    omega
  · exact ⟨fun _ => .inl hpos, fun _ => SharePool.payout_deposit_le (p := v.pool hsolv) hpos w⟩

/-- A vault without shares that holds 900 frost: it was paid before its first delegation. -/
def paidUndelegated : VaultLedger where
  vaults := [⟨sampleId 1, sampleAddress 1, 900, 0, 1000, 100⟩]
  certs := []
  peerVaults := [(sampleAddress 1, sampleId 1)]
  circulating := 9000
  ids := [sampleId 1]
  events := [.rewards ⟨sampleAddress 1, 1000, 100⟩,
    .payment ⟨sampleAddress 3, sampleAddress 1, [], 1000⟩]
  transfers := []

theorem reachable_paidUndelegated : paidUndelegated.Reachable :=
  reachable_of_replay 10000
    [(⟨sampleAddress 1, sampleId 1⟩, .newVault),
      (⟨sampleAddress 3, sampleId 2⟩, .pay (sampleId 1) (sampleAddress 1) [] 1000)]
    (by decide) (by decide)

/-- **A deposit can profit at once**: one frost into that vault redeems for 901. -/
theorem not_no_free_profit :
    ¬ ∀ l : VaultLedger, l.Reachable → ∀ v ∈ l.vaults, ∀ w ≤ l.circulating, ∀ ctx out back,
      ZingCdn.delegate v w ctx = .ok out →
        ZingCdn.undelegate out.vault out.certificate ctx = .ok back →
          back.payout.value ≤ w := by
  intro hfair
  have hprofit := hfair paidUndelegated reachable_paidUndelegated _ List.mem_cons_self 1
    (by decide) ⟨sampleAddress 2, sampleId 2⟩
    ⟨⟨sampleId 1, sampleAddress 1, 901, 1, 1000, 100⟩, ⟨sampleAddress 2, sampleAddress 1, 1, 1⟩,
      ⟨sampleId 2, sampleId 1, 1⟩, sampleAddress 2⟩
    ⟨⟨sampleId 1, sampleAddress 1, 0, 0, 1000, 100⟩, ⟨sampleAddress 2, sampleAddress 1, 1, 901⟩,
      ⟨sampleAddress 2, 901⟩⟩ (by decide) (by decide)
  exact absurd hprofit (by decide)

theorem no_free_profit_firstPayment :
    ∃ back, ZingCdn.undelegate ⟨sampleId 1, sampleAddress 1, 21, 7, 1000, 1⟩
      ⟨sampleId 3, sampleId 1, 2⟩ ⟨sampleAddress 3, sampleId 3⟩ = .ok back ∧
        (back.payout.value ≤ 7 ↔ 0 < 5 ∨ 14 = 0) :=
  no_free_profit_iff (w := 7) reachable_firstPayment List.mem_cons_self (by decide)
    (show ZingCdn.delegate ⟨sampleId 1, sampleAddress 1, 14, 5, 1000, 1⟩ 7
        ⟨sampleAddress 3, sampleId 3⟩
      = .ok ⟨⟨sampleId 1, sampleAddress 1, 21, 7, 1000, 1⟩,
        ⟨sampleAddress 3, sampleAddress 1, 7, 2⟩, ⟨sampleId 3, sampleId 1, 2⟩,
        sampleAddress 3⟩ by decide)

/-! ### The view of the rate -/

/-- **The view of the rate.** In every reachable ledger `exchange_rate` answers `10 ^ 9` for a
vault without shares, and otherwise the reserves scaled by `10 ^ 9` over the shares, rounded
down, exactly when that is a `u64`; beyond, it aborts with the code of `mul_div`. -/
theorem exchange_rate_view {l : VaultLedger} (h : l.Reachable) {v : PeerVault}
    (hv : v ∈ l.vaults) :
    exchangeRate v =
      if v.totalShares = 0 then .ok 1000000000
      else if v.reserves * 1000000000 / v.totalShares ≤ u64Max then
        .ok (v.reserves * 1000000000 / v.totalShares)
      else .error (.code 101) := by
  have hsup := (valid_of_reachable h).holdings_le hv
  exact exchangeRate_eq (by omega)

/-- Fourteen frost for five shares. -/
theorem exchange_rate_view_firstPayment :
    exchangeRate ⟨sampleId 1, sampleAddress 1, 14, 5, 1000, 1⟩ = .ok 2800000000 :=
  (exchange_rate_view reachable_firstPayment List.mem_cons_self).trans (by decide)

/-- A vault with one share worth 27 WAL: its only delegator deposited one frost, and 30 WAL
were paid into it. -/
def preciousShare : VaultLedger where
  vaults := [⟨sampleId 1, sampleAddress 1, 27000000001, 1, 1000, 3000000000⟩]
  certs := [⟨sampleAddress 2, ⟨sampleId 2, sampleId 1, 1⟩⟩]
  peerVaults := [(sampleAddress 1, sampleId 1)]
  circulating := 9999999999
  ids := [sampleId 2, sampleId 1]
  events := [.delegate ⟨sampleAddress 2, sampleAddress 1, 1, 1⟩,
    .rewards ⟨sampleAddress 1, 30000000000, 3000000000⟩,
    .payment ⟨sampleAddress 3, sampleAddress 1, [], 30000000000⟩]
  transfers := []

theorem reachable_preciousShare : preciousShare.Reachable :=
  reachable_of_replay 40000000000
    [(⟨sampleAddress 1, sampleId 1⟩, .newVault),
      (⟨sampleAddress 2, sampleId 2⟩, .delegate (sampleId 1) 1),
      (⟨sampleAddress 3, sampleId 3⟩, .pay (sampleId 1) (sampleAddress 1) [] 30000000000)]
    (by decide) (by decide)

/-- **The view is not always available**: the rate of the precious share, scaled, is not a
`u64`. -/
theorem not_exchange_rate_view :
    ¬ ∀ l : VaultLedger, l.Reachable → ∀ v ∈ l.vaults, exchangeRate v =
      .ok (if v.totalShares = 0 then 1000000000
        else v.reserves * 1000000000 / v.totalShares) := by
  intro hview
  have hrate := hview preciousShare reachable_preciousShare _ List.mem_cons_self
  exact absurd hrate (by decide)

end VaultLedger

end ZingCdn
