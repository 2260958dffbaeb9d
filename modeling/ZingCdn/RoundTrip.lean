import ZingCdn.ExchangeRate
import ZingCdn.FullExit

/-!
# The Immediate Round Trip

A holder deposits into a vault and burns the new certificate with nothing in between. Both
calls round down, against different pools; together they lose the remainder of the minting
division, spread over the shares outstanding in between and rounded up
(`SharePool.payout_deposit_eq`). What the round trip loses stays in the reserves, so no other
certificate redeems for less afterwards.

## Main results

* `VaultLedger.round_trip`: what the round trip pays, exactly; its loss is at most the price
  of one share, and every other certificate is worth at least what it was.
-/

open Relation

namespace ZingCdn

namespace VaultLedger

variable {l l₁ : VaultLedger}

/-- The certificate a deposit mints, under the fresh id, and what the deposit leaves alone. -/
theorem minted_of_submit (h : l.Valid) {ctx : TxContext} {vault : ID} {w : ℕ} {v : PeerVault}
    (hsub : l.submit ctx (.delegate vault w) = .ok l₁) (hv : l.vault? vault = some v) :
    l₁.certs = ⟨ctx.sender, ctx.freshId, vault,
        (v.pool (h.solvent v (mem_of_vault? hv))).minted w⟩ :: l.certs ∧
      l₁.transfers = l.transfers ∧ ctx.freshId ∉ l.ids := by
  have hmem := mem_of_vault? hv
  have hsup := h.holdings_le hmem
  cases accepted_of_submit hsub with
  | @delegate _ _ u out fresh hw hu hout =>
      obtain rfl : u = v := Option.some.inj (hu.symm.trans hv)
      obtain ⟨-, -, rfl⟩ := (delegate_eq_ok_iff (h.solvent u hmem) (by omega)).mp hout
      have hid : u.id = vault := KeyedList.key_of_lookup hv
      subst hid
      exact ⟨rfl, rfl, fresh⟩

/-- **The immediate round trip.** From every reachable ledger, an accepted deposit of `w` into
a vault with shares outstanding mints `w * T / R` shares, and burning the new certificate at
once pays `w` less the remainder of that division over the shares outstanding in between,
rounded up. The loss is at most the price of one share, and every other certificate redeems
for at least what it did before. -/
theorem round_trip {l l₁ : VaultLedger} (h : l.Reachable) {ctx : TxContext} {vault : ID} {w : ℕ}
    {v : PeerVault} (hsub : l.submit ctx (.delegate vault w) = .ok l₁)
    (hv : l.vault? vault = some v) (hshares : 0 < v.totalShares) (freshId : ID) :
    let s := w * v.totalShares / v.reserves
    let loss := (w * v.totalShares % v.reserves) ⌈/⌉ (v.totalShares + s)
    l₁.certs = ⟨ctx.sender, ctx.freshId, vault, s⟩ :: l.certs ∧
      loss ≤ w ∧ loss ≤ v.reserves ⌈/⌉ (v.totalShares + s) ∧
      ∃ l₂, l₁.submit ⟨ctx.sender, freshId⟩ (.undelegate vault ctx.freshId) = .ok l₂ ∧
        l₂.transfers = l.transfers ++ [⟨ctx.sender, w - loss⟩] ∧
        l₂.certs = l.certs ∧
        ∀ c ∈ l.certs, ∀ u ∈ l.vaults, ∀ u₂ ∈ l₂.vaults,
          u.id = c.certificate.vaultId → u₂.id = c.certificate.vaultId →
            c.certificate.shares * u.reserves / u.totalShares
              ≤ c.certificate.shares * u₂.reserves / u₂.totalShares := by
  have hvalid := valid_of_reachable h
  have hvalid₁ := hvalid.step (.tx ctx _ hsub)
  have hmem := mem_of_vault? hv
  have hid : v.id = vault := KeyedList.key_of_lookup hv
  subst hid
  -- the deposit: the vault's pool and the new certificate
  obtain ⟨hcerts₁, htransfers₁, hfresh⟩ := minted_of_submit hvalid hsub hv
  obtain ⟨hw, out, hout, hvaults₁, -⟩ := delegate_of_submit hsub hv
  obtain ⟨-, -, hvid, hsolv₁, hpool⟩ := delegated_cases hvalid hmem hw hout
  have hout₁ : out.vault ∈ l₁.vaults := hvaults₁ ▸ KeyedList.mem_replace_self hmem hvid
  have hpos : 0 < (v.pool (hvalid.solvent v hmem)).shares := hshares
  have hmint := SharePool.minted_of_pos (w := w) hpos
  -- the burn: the pool of the deposit redeems what it minted
  have hnew : (⟨ctx.sender, ctx.freshId, v.id,
      (v.pool (hvalid.solvent v hmem)).minted w⟩ : OwnedCertificate) ∈ l₁.certs :=
    hcerts₁ ▸ List.mem_cons_self
  obtain ⟨l₂, hburn, hcerts₂, -, htransfers₂⟩ :=
    submit_burn hvalid₁ hout₁ hsolv₁ hnew hvid freshId
  have hpaid := SharePool.payout_deposit_eq hpos w
  intro s loss
  have hs : (v.pool (hvalid.solvent v hmem)).minted w = s := hmint
  have hloss : (v.pool (hvalid.solvent v hmem)).roundTripLoss w = loss := by
    rw [SharePool.roundTripLoss, hs]
    rfl
  have hprice := SharePool.roundTripLoss_le hpos w
  rw [hloss, hs] at hprice
  -- the burnt certificate was the only one under its id
  have hback : l₂.certs = l.certs := by
    have hkept : ctx.freshId ∉ l.certs.map OwnedCertificate.id := by
      intro hin
      obtain ⟨c, hc, hk⟩ := List.mem_map.mp hin
      exact hfresh (hk ▸ (hvalid.cert_used c hc).1)
    rw [hcerts₂, hcerts₁]
    exact KeyedList.remove_cons_self hkept
  have hrun : ReflTransGen Step l l₂ := .tail (.single (.tx ctx _ hsub)) (.tx _ _ hburn)
  refine ⟨by rw [hcerts₁, hs], hloss ▸ SharePool.roundTripLoss_le_deposit hpos w, hprice, l₂,
    ?_, ?_, ?_, ?_⟩
  · rwa [← hvid] at hburn
  · rw [htransfers₂, htransfers₁, hpool, hpaid, hloss]
  · exact hback
  · intro c hc u hu u₂ hu₂ huid huid₂
    exact (exchange_rate_monotone h).2 l₂ hrun c.certificate ⟨c, hc, rfl⟩
      ⟨c, hback ▸ hc, rfl⟩ u hu u₂ hu₂ huid huid₂

/-- A deposit of seven frost at a rate of 14 frost for 5 shares comes back as six. -/
theorem round_trip_secondDeposit :
    ∃ l₂, secondDeposit.submit ⟨sampleAddress 3, sampleId 4⟩
        (.undelegate (sampleId 1) (sampleId 3)) = .ok l₂ ∧
      l₂.transfers = [⟨sampleAddress 3, 6⟩] := by
  have hdeposit : firstPayment.submit ⟨sampleAddress 3, sampleId 3⟩ (.delegate (sampleId 1) 7)
      = .ok secondDeposit := by decide
  have hvault : firstPayment.vault? (sampleId 1)
      = some ⟨sampleId 1, sampleAddress 1, 14, 5, 1000, 1⟩ := by decide
  obtain ⟨-, -, -, l₂, hburn, htransfers, -⟩ :=
    round_trip reachable_firstPayment hdeposit hvault (by decide) (sampleId 4)
  exact ⟨l₂, hburn, htransfers⟩

end VaultLedger

end ZingCdn
