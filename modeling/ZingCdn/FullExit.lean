import ZingCdn.Solvency

/-!
# Full Exit of a Vault

When all live certificates of a vault are burned, one after the other and in any order,
nothing gets stuck and nothing is left: the vault's pool is redeemed holding by holding
(`SharePool.redeemAll`), so every certificate is paid its part of the reserves at the rate
before the exit, give or take the units that earlier rounding left behind.

## Main results

* `VaultLedger.replay_burns`: burning any list of distinct live certificates of a vault
  redeems their shares from its pool in that order.
* `VaultLedger.full_exit`: burning all of them, in any order, succeeds, pays the `k`-th at
  least its rounded-down part and at most `k` frost more, pays out the whole reserves, and
  leaves a vault without shares or reserves.
-/

namespace ZingCdn

namespace VaultLedger

variable {l : VaultLedger}

/-- The vault with another pool. -/
def withPool (v : PeerVault) (p : SharePool) : PeerVault :=
  { v with reserves := p.reserves, totalShares := p.shares }

/-- The transactions in which the owners of certificates of a vault burn them, in order. -/
def burns (vault : ID) (freshId : OwnedCertificate → ID) (burned : List OwnedCertificate) :
    List (TxContext × VaultCall) :=
  burned.map fun c => (⟨c.owner, freshId c⟩, .undelegate vault c.id)

/-- The coins that burned certificates pay to their owners. -/
def payoutsTo (burned : List OwnedCertificate) (payouts : List ℕ) : List CoinTransfer :=
  List.zipWith (fun c value => ⟨c.owner, value⟩) burned payouts

/-- **One burn.** The owner of a live certificate burns it: the vault's pool redeems its
shares and pays the owner. -/
theorem submit_burn (h : l.Valid) {v : PeerVault} (hv : v ∈ l.vaults) (hsolv : v.Solvent)
    {c : OwnedCertificate} (hc : c ∈ l.certs) (hid : c.certificate.vaultId = v.id)
    (freshId : ID) :
    ∃ l', l.submit ⟨c.owner, freshId⟩ (.undelegate v.id c.id) = .ok l' ∧
      l'.certs = KeyedList.remove OwnedCertificate.id c.id l.certs ∧
      withPool v ((v.pool hsolv).redeem c.certificate.shares) ∈ l'.vaults ∧
      l'.transfers = l.transfers ++ [⟨c.owner, (v.pool hsolv).payout c.certificate.shares⟩] := by
  have hcert : l.cert? c.id = some c := KeyedList.lookup_of_mem h.certs_nodup hc
  have hvault : l.vault? v.id = some v := KeyedList.lookup_of_mem h.vaults_nodup hv
  have hsup := h.holdings_le hv
  have hburn := undelegate_eq hsolv hid.symm (h.cert_pos c hc)
    (h.shares_le hv hc hid.symm) (by omega) ⟨c.owner, freshId⟩
  exact ⟨_, submit_of_accepted (.undelegate hcert rfl hvault hburn), rfl,
    KeyedList.mem_replace_self hv rfl, rfl⟩

/-- **Burning certificates in order.** Distinct live certificates of a vault can be burned
in any order, and the vault's pool redeems their shares in that order. -/
theorem replay_burns (h : l.Valid) {v : PeerVault} (hv : v ∈ l.vaults) (hsolv : v.Solvent)
    (freshId : OwnedCertificate → ID) {burned : List OwnedCertificate}
    (hnd : (burned.map OwnedCertificate.id).Nodup) (hlive : ∀ c ∈ burned, c ∈ l.certs)
    (hid : ∀ c ∈ burned, c.certificate.vaultId = v.id) :
    ∃ l', l.replay (burns v.id freshId burned) = .ok l' ∧
      withPool v ((v.pool hsolv).redeemAll (burned.map (·.certificate.shares))) ∈ l'.vaults ∧
      l'.transfers = l.transfers ++
        payoutsTo burned ((v.pool hsolv).payouts (burned.map (·.certificate.shares))) := by
  induction burned generalizing l v with
  | nil => exact ⟨l, rfl, hv, (List.append_nil _).symm⟩
  | cons c rest ih =>
      rw [List.map_cons, List.nodup_cons] at hnd
      obtain ⟨l₁, hsub, hcerts, hv₁, htransfers⟩ := submit_burn h hv hsolv
        (hlive c List.mem_cons_self) (hid c List.mem_cons_self) (freshId c)
      have hrest : ∀ d ∈ rest, d ∈ l₁.certs := by
        intro d hd
        rw [hcerts]
        refine KeyedList.mem_remove.mpr ⟨hlive d (List.mem_cons_of_mem _ hd), fun hk => ?_⟩
        exact hnd.1 (hk ▸ List.mem_map_of_mem hd)
      obtain ⟨l', hreplay, hv', htransfers'⟩ := ih (h.step (.tx _ _ hsub)) hv₁
        ⟨((v.pool hsolv).redeem c.certificate.shares).backed, hsolv.commission⟩ hnd.2 hrest
        fun d hd => hid d (List.mem_cons_of_mem _ hd)
      refine ⟨l', bind_eq_ok_iff.mpr ⟨l₁, hsub, hreplay⟩, hv', ?_⟩
      rw [htransfers', htransfers, List.append_assoc]
      rfl

/-- The live certificates of a vault, in any order, hold its live shares. -/
theorem sum_shares_of_perm {certs burned : List OwnedCertificate} {vault : ID}
    (hperm : burned.Perm (certs.filter fun c => c.certificate.vaultId = vault)) :
    (burned.map (·.certificate.shares)).sum = liveShares certs vault :=
  (hperm.map _).sum_eq

/-- **Full exit.** From every reachable vault with shares outstanding, burning all its
live certificates in any order succeeds; the `k`-th burned, counted from zero, pays its
owner at least its rounded-down part of the reserves and at most `k` frost more; the
payouts are the whole reserves; and the vault is left without shares or reserves. -/
theorem full_exit {l : VaultLedger} (h : l.Reachable) {v : PeerVault} (hv : v ∈ l.vaults)
    (hshares : 0 < v.totalShares) (burned : List OwnedCertificate)
    (hperm : burned.Perm (l.certs.filter fun c => c.certificate.vaultId = v.id))
    (freshId : OwnedCertificate → ID) :
    ∃ l' payouts, l.replay (burns v.id freshId burned) = .ok l' ∧
      l'.transfers = l.transfers ++ payoutsTo burned payouts ∧
      payouts.length = burned.length ∧
      (∀ k c, burned[k]? = some c → ∃ w, payouts[k]? = some w ∧
        c.certificate.shares * v.reserves / v.totalShares ≤ w ∧
        w ≤ c.certificate.shares * v.reserves / v.totalShares + k) ∧
      payouts.sum = v.reserves ∧
      { v with reserves := 0, totalShares := 0 } ∈ l'.vaults := by
  have hvalid := valid_of_reachable h
  have hsolv := hvalid.solvent v hv
  have hmem : ∀ c ∈ burned, c ∈ l.certs ∧ c.certificate.vaultId = v.id := by
    intro c hc
    simpa using hperm.subset hc
  have hnd : (burned.map OwnedCertificate.id).Nodup :=
    ((hperm.map _).nodup_iff).mpr
      (hvalid.certs_nodup.sublist (List.filter_sublist.map OwnedCertificate.id))
  have hsum : (burned.map (·.certificate.shares)).sum = (v.pool hsolv).shares :=
    (sum_shares_of_perm hperm).trans (hvalid.shares v hv).symm
  obtain ⟨l', hreplay, hv', htransfers⟩ := replay_burns hvalid hv hsolv freshId hnd
    (fun c hc => (hmem c hc).1) fun c hc => (hmem c hc).2
  refine ⟨l', _, hreplay, htransfers, ?_, ?_, SharePool.sum_payouts_of_exit hshares hsum, ?_⟩
  · rw [SharePool.length_payouts, List.length_map]
  · intro k c hk
    have hpos : ∀ s ∈ burned.map (·.certificate.shares), 0 < s := by
      intro s hs
      obtain ⟨d, hd, rfl⟩ := List.mem_map.mp hs
      exact hvalid.cert_pos d (hmem d hd).1
    exact SharePool.payouts_within (p := v.pool hsolv) hshares hsum.le hpos
      (by rw [List.getElem?_map, hk]; rfl)
  · have hres := SharePool.redeemAll_reserves_of_exit (p := v.pool hsolv) hshares hsum
    have hnone : ((v.pool hsolv).redeemAll (burned.map (·.certificate.shares))).shares = 0 := by
      rw [SharePool.redeemAll_shares, hsum, Nat.sub_self]
    rwa [withPool, hres, hnone] at hv'

/-- Two equal delegations share eleven frost, so one of them is paid a frost more. -/
def oddReserves : VaultLedger where
  vaults := [⟨sampleId 1, sampleAddress 1, 11, 6, 1000, 0⟩]
  certs := [⟨sampleAddress 3, ⟨sampleId 3, sampleId 1, 3⟩⟩,
    ⟨sampleAddress 2, ⟨sampleId 2, sampleId 1, 3⟩⟩]
  peerVaults := [(sampleAddress 1, sampleId 1)]
  circulating := 89
  ids := [sampleId 3, sampleId 2, sampleId 1]
  events := [.delegate ⟨sampleAddress 2, sampleAddress 1, 3, 3⟩,
    .delegate ⟨sampleAddress 3, sampleAddress 1, 3, 3⟩, .rewards ⟨sampleAddress 1, 5, 0⟩,
    .payment ⟨sampleAddress 4, sampleAddress 1, [], 5⟩]
  transfers := []

theorem reachable_oddReserves : oddReserves.Reachable :=
  reachable_of_replay 100
    [(⟨sampleAddress 1, sampleId 1⟩, .newVault),
      (⟨sampleAddress 2, sampleId 2⟩, .delegate (sampleId 1) 3),
      (⟨sampleAddress 3, sampleId 3⟩, .delegate (sampleId 1) 3),
      (⟨sampleAddress 4, sampleId 4⟩, .pay (sampleId 1) (sampleAddress 1) [] 5)]
    (by decide) (by decide)

theorem full_exit_oddReserves :
    ∃ l', ∃ payouts : List ℕ, oddReserves.replay (burns (sampleId 1) (fun _ => sampleId 5)
        oddReserves.certs.reverse) = .ok l' ∧ payouts.sum = 11 := by
  obtain ⟨l', payouts, hreplay, -, -, -, hsum, -⟩ := full_exit reachable_oddReserves
    List.mem_cons_self (by decide) oddReserves.certs.reverse (by decide)
    fun _ => sampleId 5
  exact ⟨l', payouts, hreplay, hsum⟩

end VaultLedger

end ZingCdn
