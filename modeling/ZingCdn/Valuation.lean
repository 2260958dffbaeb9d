import Mathlib.Data.List.Perm.Basic
import ZingCdn.PeerVault
import ZingCdn.VaultRouting

/-!
# What a Certificate Is Worth

`list_my_share_certificates` shows the wallet's certificates with an estimate of what each
would redeem for. It joins the owned certificates with the listing of the vaults, by way of a
map from vault ids that is filled in whatever order the map of peers is walked in
(`IterationOrder`), and divides a saturating `u128` product.

The chain divides first and multiplies after, and aborts where the wallet saturates or
truncates. On the shares of a vault the two agree, because neither does.

## Main results

* `vaultIdToInfo_of_sees`: the join finds a vault in its state, in any order of the walk.
* `estimated_value_is_payout`: the estimate is the payment on redemption.
-/

namespace ZingCdn

/-! ### Arithmetic -/

/-- `u128::saturating_mul`. -/
def saturatingMulU128 (a b : ℕ) : ℕ := min (a * b) u128Max

/-- `n as u64`. -/
def asU64 (n : ℕ) : ℕ := n % 18446744073709551616

/-- A product that fits 128 bits is exact. -/
theorem saturatingMulU128_of_le {a b : ℕ} (h : a * b ≤ u128Max) :
    saturatingMulU128 a b = a * b := min_eq_left h

/-- A number that fits 64 bits is not cut. -/
theorem asU64_of_le {n : ℕ} (h : n ≤ u64Max) : asU64 n = n :=
  Nat.mod_eq_of_lt (Nat.lt_succ_of_le h)

/-! ### The listing of the certificates -/

/-- A certificate as shown. -/
structure ShareCertificateInfo where
  certObjectId : String
  certVersion : ℕ
  vaultId : String
  vaultAddress : String
  shares : ℕ
  estimatedValue : ℕ
deriving DecidableEq

/-- The outcome of every remote step of listing the certificates: the client, the owned
objects with their versions, the batch read of the objects, and the listing of the vaults. -/
structure CertificateListing where
  client : Except String Unit
  owned : Except String (List (String × ℕ))
  objects : Except String (List ObjectResult)
  vaults : VaultListing

/-- The order in which the entries of a hash map are walked. -/
structure IterationOrder (α : Type) where
  visit : List α → List α
  perm : ∀ entries, (visit entries).Perm entries

/-- The entries of the map that collects pairs: of two pairs with one key the later counts. -/
def mapEntries {α : Type} (pairs : List (String × α)) : List (String × α) :=
  pairs.foldr (fun p rest => if p.1 ∈ rest.map Prod.fst then rest else p :: rest) []

/-- A certificate parsed from its object: id, version, vault and shares. -/
def parseCertificate (owned : String × ℕ) : ObjectResult → Option (String × ℕ × String × ℕ)
  | .object (some (some (.structValue fields))) => do
      let vaultId ← stringField fields "vault_id"
      let sharesStr ← stringField fields "shares"
      let shares ← parseU64 sharesStr
      some (owned.1, owned.2, vaultId, shares)
  | _ => none

/-- The vaults the wallet sees; there are none when they cannot be listed. -/
def ZingWallet.seenVaults (self : ZingWallet) (o : VaultListing) :
    List (String × PeerVaultInfo) :=
  match self.listPeerVaults o with
  | .error _ => []
  | .ok vaults => mapEntries vaults

/-- `vault_id_to_info.get`, on the entries in the order they were inserted. -/
def vaultIdToInfo (visited : List (String × PeerVaultInfo)) (vaultId : String) :
    Option (String × PeerVaultInfo) :=
  visited.reverse.find? fun p => p.2.vaultObjectId = vaultId

/-- The value of some shares of a listed vault. -/
def estimatedValue (shares : ℕ) (info : PeerVaultInfo) : ℕ :=
  if 0 < info.totalShares then
    asU64 (saturatingMulU128 shares info.reserves / max info.totalShares 1)
  else 0

/-- The row shown for a certificate. -/
def certificateInfo (visited : List (String × PeerVaultInfo)) :
    String × ℕ × String × ℕ → ShareCertificateInfo
  | (certObjectId, certVersion, vaultId, shares) =>
      let vaultData := vaultIdToInfo visited vaultId
      { certObjectId
        certVersion
        vaultId
        vaultAddress := (vaultData.map Prod.fst).getD ""
        shares
        estimatedValue := (vaultData.map fun p => estimatedValue shares p.2).getD 0 }

/-- `list_my_share_certificates`. -/
def ZingWallet.listMyShareCertificates (self : ZingWallet) (o : CertificateListing)
    (order : IterationOrder (String × PeerVaultInfo)) :
    ZingResult (List ShareCertificateInfo) :=
  match self.settlement with
  | none => .ok []
  | some _ =>
      match o.client with
      | .error e => .error (.suiClient ("rpc: " ++ e))
      | .ok () =>
          match o.owned with
          | .error e => .error (.suiClient ("list owned: " ++ e))
          | .ok certIds =>
              if certIds.isEmpty then .ok []
              else
                match o.objects with
                | .error e => .error (.suiClient ("batch_get_certs: " ++ e))
                | .ok results =>
                    let certs := (certIds.zip results).filterMap fun (owned, r) =>
                      parseCertificate owned r
                    .ok (certs.map (certificateInfo (order.visit (self.seenVaults o.vaults))))

/-! ### The state a listing reports -/

/-- The wallet sees a vault, under its id, with the reserves and shares it has. -/
structure ZingWallet.Sees (wallet : ZingWallet) (o : VaultListing) (vaultId : String)
    (v : PeerVault) : Prop where
  listed : ∃ p ∈ wallet.seenVaults o, p.2.vaultObjectId = vaultId
  state : ∀ p ∈ wallet.seenVaults o, p.2.vaultObjectId = vaultId →
    p.2.reserves = v.reserves ∧ p.2.totalShares = v.totalShares

/-- Whatever the order of the walk, a vault that is seen is found in its state. -/
theorem vaultIdToInfo_of_sees {wallet : ZingWallet} {o : VaultListing} {vaultId : String}
    {v : PeerVault} (hsees : wallet.Sees o vaultId v)
    (order : IterationOrder (String × PeerVaultInfo)) :
    ∃ p, vaultIdToInfo (order.visit (wallet.seenVaults o)) vaultId = some p ∧
      p.2.reserves = v.reserves ∧ p.2.totalShares = v.totalShares := by
  have hperm := order.perm (wallet.seenVaults o)
  cases hfound : vaultIdToInfo (order.visit (wallet.seenVaults o)) vaultId with
  | none =>
      obtain ⟨p, hp, hid⟩ := hsees.listed
      have hmissed := List.find?_eq_none.mp hfound p
        (List.mem_reverse.mpr (hperm.mem_iff.mpr hp))
      simp [hid] at hmissed
  | some p =>
      have hmem := List.mem_reverse.mp (List.mem_of_find?_eq_some hfound)
      have hid := List.find?_some hfound
      exact ⟨p, rfl, hsees.state p (hperm.mem_iff.mp hmem) (by simpa using hid)⟩

/-- The rows are those of the parsed certificates. -/
theorem mem_listMyShareCertificates {wallet : ZingWallet} {o : CertificateListing}
    {order : IterationOrder (String × PeerVaultInfo)} {rows : List ShareCertificateInfo}
    (hrows : wallet.listMyShareCertificates o order = .ok rows) {row : ShareCertificateInfo}
    (hrow : row ∈ rows) :
    ∃ certObjectId certVersion, row = certificateInfo (order.visit (wallet.seenVaults o.vaults))
      (certObjectId, certVersion, row.vaultId, row.shares) := by
  rw [ZingWallet.listMyShareCertificates] at hrows
  split at hrows
  · cases hrows
    cases hrow
  split at hrows
  · cases hrows
  split at hrows
  · cases hrows
  split at hrows
  · cases hrows
    cases hrow
  split at hrows
  · cases hrows
  · cases hrows
    obtain ⟨⟨certObjectId, certVersion, vaultId, shares⟩, -, rfl⟩ := List.mem_map.mp hrow
    exact ⟨certObjectId, certVersion, rfl⟩

/-! ### The estimate and the payment -/

/-- Without saturation and truncation the estimate is the quotient. -/
theorem estimatedValue_eq {shares : ℕ} {info : PeerVaultInfo} (hpos : 0 < info.totalShares)
    (hproduct : shares * info.reserves ≤ u128Max)
    (hquotient : shares * info.reserves / info.totalShares ≤ u64Max) :
    estimatedValue shares info = shares * info.reserves / info.totalShares := by
  rw [estimatedValue, if_pos hpos, saturatingMulU128_of_le hproduct, Nat.max_eq_left hpos,
    asU64_of_le hquotient]

section Certificate

variable {v : PeerVault} {cert : ShareCertificate}

/-- **The estimate is the payment.** A certificate of some of the outstanding shares of a vault
is paid on redemption what every listing of the wallet shows for it that sees the vault in that
state; neither side saturates, truncates or aborts. -/
theorem estimated_value_is_payout (idText : ID → String) (hreserves : v.reserves ≤ u64Max)
    (htotal : v.totalShares ≤ u64Max) (hid : v.id = cert.vaultId) (hpos : 0 < cert.shares)
    (hle : cert.shares ≤ v.totalShares) (ctx : TxContext) :
    ∃ out, undelegate v cert ctx = .ok out ∧
      mulDiv cert.shares v.reserves v.totalShares = .ok out.payout.value ∧
      cert.shares * v.reserves ≤ u128Max ∧
      cert.shares * v.reserves / v.totalShares ≤ u64Max ∧
      (∀ info : PeerVaultInfo, info.reserves = v.reserves → info.totalShares = v.totalShares →
        estimatedValue cert.shares info = out.payout.value) ∧
      ∀ (wallet : ZingWallet) (o : CertificateListing)
        (order : IterationOrder (String × PeerVaultInfo)) (rows : List ShareCertificateInfo),
        wallet.listMyShareCertificates o order = .ok rows →
        wallet.Sees o.vaults (idText v.id) v →
        ∀ row ∈ rows, row.vaultId = idText cert.vaultId → row.shares = cert.shares →
          row.estimatedValue = out.payout.value := by
  have hout := undelegate_of_le hid hpos hle hreserves htotal ctx
  have htotalPos : 0 < v.totalShares := hpos.trans_le hle
  have hproduct : cert.shares * v.reserves ≤ u128Max :=
    mul_le_u128Max (hle.trans htotal) hreserves
  have hquotient : cert.shares * v.reserves / v.totalShares ≤ u64Max :=
    (mul_div_le_of_le hle).trans hreserves
  have hestimate : ∀ info : PeerVaultInfo, info.reserves = v.reserves →
      info.totalShares = v.totalShares →
        estimatedValue cert.shares info = cert.shares * v.reserves / v.totalShares := by
    intro info hinfo hshares
    rw [← hinfo] at hproduct
    rw [← hinfo, ← hshares] at hquotient
    rw [estimatedValue_eq (hshares ▸ htotalPos) hproduct hquotient, hinfo, hshares]
  refine ⟨_, hout, ?_, hproduct, hquotient, hestimate, ?_⟩
  · exact mulDiv_of_le (hle.trans htotal) hreserves htotalPos hquotient
  · intro wallet o order rows hrows hsees row hrow hvault hshares
    obtain ⟨certObjectId, certVersion, hinfo⟩ := mem_listMyShareCertificates hrows hrow
    obtain ⟨p, hfound, hres, htot⟩ := vaultIdToInfo_of_sees hsees order
    rw [hinfo]
    simp only [certificateInfo, hvault, ← hid, hfound, hshares, Option.map_some,
      Option.getD_some]
    exact hestimate p.2 hres htot

end Certificate

/-! ### The paid peer's certificate -/

/-- The vault of the paid peer, which lists five shares for five frosts. -/
def paidPeerVaultState : PeerVault :=
  ⟨⟨⟨List.Vector.replicate 32 1⟩⟩, paidPeer, 5, 5, 1000, 0⟩

/-- How an id is written in the listings. -/
def sampleIdText (id : ID) : String := sampleExternals.addressText id.bytes.bytes.toList

/-- A certificate for three of the five shares, as its object reads. -/
def sampleCertificateJson : JsonKind :=
  .structValue [("vault_id", some (.stringValue (sampleIdText paidPeerVaultState.id))),
    ("shares", some (.stringValue "3"))]

/-- The certificate itself. -/
def sampleCertificate : ShareCertificate := ⟨⟨paidPeer⟩, paidPeerVaultState.id, 3⟩

/-- The listing of that certificate, with the vault of the paid peer. -/
def sampleCertificates : CertificateListing where
  client := .ok ()
  owned := .ok [("0x0c", 7)]
  objects := .ok [.object (some (some sampleCertificateJson))]
  vaults := (listedOutcome [.ok paidPeerEntry]).listing

/-- The listing shows the vault. -/
theorem sees_paidPeerVaultState :
    payingWallet.Sees sampleCertificates.vaults (sampleIdText paidPeerVaultState.id)
      paidPeerVaultState := by
  have hseen : payingWallet.seenVaults sampleCertificates.vaults =
      [(addressKey paidPeer.bytes.toList, ⟨5, 5, 1000, 0, sampleIdText paidPeerVaultState.id⟩)] :=
    rfl
  constructor
  · simp [hseen]
  · simp [hseen, paidPeerVaultState]

/-- Three shares are shown for what they pay. -/
theorem estimated_value_is_payout_three_shares :
    ∃ out row, undelegate paidPeerVaultState sampleCertificate ⟨paidPeer, ⟨paidPeer⟩⟩ = .ok out ∧
      payingWallet.listMyShareCertificates sampleCertificates ⟨id, fun _ => .rfl⟩ = .ok [row] ∧
      row.estimatedValue = out.payout.value := by
  have hid : paidPeerVaultState.id = sampleCertificate.vaultId := rfl
  obtain ⟨out, hout, -, -, -, -, hrows⟩ := estimated_value_is_payout sampleIdText (by decide)
    (by decide) hid (by decide) (by decide) ⟨paidPeer, ⟨paidPeer⟩⟩
  exact ⟨out, _, hout, rfl, hrows payingWallet sampleCertificates ⟨id, fun _ => .rfl⟩ _ rfl
    sees_paidPeerVaultState _ List.mem_cons_self rfl rfl⟩

end ZingCdn
