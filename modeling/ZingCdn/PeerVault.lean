import ZingCdn.Library.SharePool
import ZingCdn.Utils

/-!
# `zing_cdn::peer_vault` and `zing_cdn::settlement`

The per-peer delegation vaults and the payment entry point that feeds them. Every
contract function is a computation into `Except Abort`; its successful result carries the
updated vault together with what the call emits and transfers, and a caller reads
nothing else.

A vault whose shares are backed (`PeerVault.Solvent`) is a `SharePool`: `PeerVault.pool`.
The specification lemmas `delegate_eq`, `undelegate_eq`, `collectRewards_eq` and
`claimEarnings_eq_ok_iff` say what each call does on such a vault, aborts included, and the
refinement lemmas (`delegate_pool` and its companions) identify the effect on the pool
with `SharePool.deposit`, `SharePool.redeem` and `SharePool.donate`.
-/

namespace ZingCdn

/-- A per-peer vault: pooled WAL, the shares outstanding, the peer's cut in basis points
and its unclaimed commission. -/
structure PeerVault where
  id : ID
  peerAddress : Address
  reserves : ℕ
  totalShares : ℕ
  commissionBps : ℕ
  peerEarnings : ℕ
deriving DecidableEq

/-- A receipt for shares of one vault. -/
structure ShareCertificate where
  id : ID
  vaultId : ID
  shares : ℕ
deriving DecidableEq

structure DelegateEvent where
  delegator : Address
  peer : Address
  walAmount : ℕ
  shares : ℕ
deriving DecidableEq

structure UndelegateEvent where
  delegator : Address
  peer : Address
  shares : ℕ
  walAmount : ℕ
deriving DecidableEq

structure RewardsEvent where
  peer : Address
  amount : ℕ
  commission : ℕ
deriving DecidableEq

structure EarningsClaimedEvent where
  peer : Address
  amount : ℕ
deriving DecidableEq

structure PaymentEvent where
  payer : Address
  payee : Address
  blobHash : List UInt8
  amount : ℕ
deriving DecidableEq

/-- A WAL coin sent to an address. -/
structure CoinTransfer where
  recipient : Address
  value : ℕ
deriving DecidableEq

/-! ### Error codes -/

def ebZeroAmount : ℕ := 101
def ebZeroShares : ℕ := 102
def ebWrongVault : ℕ := 103
def ebInvalidCommission : ℕ := 104
def ebNotVaultOwner : ℕ := 105
def ebNoEarnings : ℕ := 106
def ebZeroPayment : ℕ := 0

/-! ### Vault lifecycle -/

/-- A peer's vault with the given commission (at most 10000 basis points). -/
def createVault (peerAddress : Address) (commissionBps : ℕ) (ctx : TxContext) :
    Except Abort PeerVault := do
  require (commissionBps ≤ 10000) ebInvalidCommission
  pure {
    id := ctx.freshId
    peerAddress
    reserves := 0
    totalShares := 0
    commissionBps
    peerEarnings := 0 }

/-- The sender's vault at the default commission, recorded in the registry table; the
table refuses a second vault of one address. -/
def newVault (peerVaults : List (Address × ID)) (ctx : TxContext) :
    Except Abort (List (Address × ID) × PeerVault) := do
  let peerVault : PeerVault := {
    id := ctx.freshId
    peerAddress := ctx.sender
    reserves := 0
    totalShares := 0
    commissionBps := 1000
    peerEarnings := 0 }
  if peerVault.peerAddress ∈ peerVaults.map Prod.fst then
    throw .fieldAlreadyExists
  pure ((peerVault.peerAddress, peerVault.id) :: peerVaults, peerVault)

/-! ### Delegation -/

/-- What an accepted `delegate` leaves behind. -/
structure Delegated where
  vault : PeerVault
  event : DelegateEvent
  certificate : ShareCertificate
  recipient : Address
deriving DecidableEq

/-- Deposit a coin and mint a certificate at the current rate, one share per frost when
no shares are outstanding. -/
def delegate (vault : PeerVault) (coin : ℕ) (ctx : TxContext) : Except Abort Delegated := do
  let walAmount := coin
  require (0 < walAmount) ebZeroAmount
  let shares ← (
    if vault.totalShares = 0 then pure walAmount
    else mulDiv walAmount vault.totalShares vault.reserves)
  require (0 < shares) ebZeroShares
  let reserves ← balanceJoin vault.reserves coin
  let totalShares ← checked u64Max (vault.totalShares + shares)
  pure {
    vault := { vault with reserves, totalShares }
    event := { delegator := ctx.sender, peer := vault.peerAddress, walAmount, shares }
    certificate := { id := ctx.freshId, vaultId := vault.id, shares }
    recipient := ctx.sender }

/-- What an accepted `undelegate` leaves behind; the certificate is gone. -/
structure Undelegated where
  vault : PeerVault
  event : UndelegateEvent
  payout : CoinTransfer
deriving DecidableEq

/-- Burn a certificate for its part of the reserves at the current rate. -/
def undelegate (vault : PeerVault) (cert : ShareCertificate) (ctx : TxContext) :
    Except Abort Undelegated := do
  require (vault.id = cert.vaultId) ebWrongVault
  let shares := cert.shares
  require (0 < shares) ebZeroAmount
  let walAmount ← mulDiv shares vault.reserves vault.totalShares
  let totalShares ← checkedSub vault.totalShares shares
  let reserves ← balanceSplit vault.reserves walAmount
  pure {
    vault := { vault with reserves, totalShares }
    event := { delegator := ctx.sender, peer := vault.peerAddress, shares, walAmount }
    payout := { recipient := ctx.sender, value := walAmount } }

/-! ### Rewards -/

/-- What an accepted `collect_rewards` leaves behind. -/
structure Collected where
  vault : PeerVault
  event : RewardsEvent
deriving DecidableEq

/-- Split a payment: the commission to the peer's earnings, the rest to the reserves. -/
def collectRewards (vault : PeerVault) (coin : ℕ) : Except Abort Collected := do
  let amount := coin
  require (0 < amount) ebZeroAmount
  let commission ← mulDiv amount vault.commissionBps 10000
  let paymentCoin ← balanceSplit coin commission
  let peerEarnings ← balanceJoin vault.peerEarnings commission
  let reserves ← balanceJoin vault.reserves paymentCoin
  pure {
    vault := { vault with peerEarnings, reserves }
    event := { peer := vault.peerAddress, amount, commission } }

/-- What an accepted `claim_earnings` leaves behind. -/
structure EarningsClaimed where
  vault : PeerVault
  event : EarningsClaimedEvent
  payout : CoinTransfer
deriving DecidableEq

/-- The peer takes its whole accumulated commission. -/
def claimEarnings (vault : PeerVault) (ctx : TxContext) : Except Abort EarningsClaimed := do
  require (ctx.sender = vault.peerAddress) ebNotVaultOwner
  let amount := vault.peerEarnings
  require (0 < amount) ebNoEarnings
  let peerEarnings ← balanceSplit vault.peerEarnings amount
  pure {
    vault := { vault with peerEarnings }
    event := { peer := vault.peerAddress, amount }
    payout := { recipient := ctx.sender, value := amount } }

/-- What an accepted `settlement::pay` leaves behind. -/
structure Paid where
  vault : PeerVault
  rewards : RewardsEvent
  payment : PaymentEvent
deriving DecidableEq

/-- `settlement::pay`: the whole coin goes to the vault the caller passed; `payee` is only
recorded in the event. -/
def pay (vault : PeerVault) (payee : Address) (blobHash : List UInt8) (coin : ℕ)
    (ctx : TxContext) : Except Abort Paid := do
  let amount := coin
  require (0 < amount) ebZeroPayment
  let collected ← collectRewards vault coin
  pure {
    vault := collected.vault
    rewards := collected.event
    payment := { payer := ctx.sender, payee, blobHash, amount } }

/-! ### View functions -/

/-- Frost per share, scaled by `10 ^ 9`; one to one when no shares are outstanding. -/
def exchangeRate (vault : PeerVault) : Except Abort ℕ :=
  if vault.totalShares = 0 then pure 1000000000
  else mulDiv vault.reserves 1000000000 vault.totalShares

/-! ### A solvent vault is a share pool -/

/-- Every share of the vault is backed by a frost and the commission is a fraction. -/
structure PeerVault.Solvent (v : PeerVault) : Prop where
  backed : v.totalShares ≤ v.reserves
  commission : v.commissionBps ≤ 10000

/-- The share pool a solvent vault holds. -/
def PeerVault.pool (v : PeerVault) (h : v.Solvent) : SharePool :=
  ⟨v.reserves, v.totalShares, h.backed⟩

@[simp] theorem PeerVault.pool_reserves {v : PeerVault} (h : v.Solvent) :
    (v.pool h).reserves = v.reserves := rfl

@[simp] theorem PeerVault.pool_shares {v : PeerVault} (h : v.Solvent) :
    (v.pool h).shares = v.totalShares := rfl

theorem createVault_eq_ok_iff {peerAddress : Address} {bps : ℕ} {ctx : TxContext}
    {v : PeerVault} :
    createVault peerAddress bps ctx = .ok v ↔
      bps ≤ 10000 ∧ v = ⟨ctx.freshId, peerAddress, 0, 0, bps, 0⟩ := by
  by_cases h : bps ≤ 10000
  · rw [createVault, require_of h, bind_ok, pure_eq_ok, Except.ok.injEq]
    exact ⟨fun hv => ⟨h, hv.symm⟩, fun hv => hv.2.symm⟩
  · rw [createVault, require_of_not h, bind_error]
    exact ⟨fun hv => by simp at hv, fun hv => absurd hv.1 h⟩

theorem newVault_eq_ok_iff {table table' : List (Address × ID)} {ctx : TxContext}
    {v : PeerVault} :
    newVault table ctx = .ok (table', v) ↔
      ctx.sender ∉ table.map Prod.fst ∧ table' = (ctx.sender, ctx.freshId) :: table ∧
        v = ⟨ctx.freshId, ctx.sender, 0, 0, 1000, 0⟩ := by
  simp only [newVault]
  split <;> rename_i h
  · simp [h]
  · simp [h, eq_comm]

/-- **What `delegate` does** on a solvent vault whose reserves the coin keeps within
`u64`: it refuses an empty coin, then a coin too small to mint a share, and otherwise
deposits into the pool. -/
theorem delegate_eq {v : PeerVault} (hv : v.Solvent) {coin : ℕ}
    (hfit : v.reserves + coin ≤ u64Max) (ctx : TxContext) :
    delegate v coin ctx =
      if 0 < coin then
        if 0 < (v.pool hv).minted coin then
          .ok {
            vault := { v with
              reserves := v.reserves + coin
              totalShares := v.totalShares + (v.pool hv).minted coin }
            event := ⟨ctx.sender, v.peerAddress, coin, (v.pool hv).minted coin⟩
            certificate := ⟨ctx.freshId, v.id, (v.pool hv).minted coin⟩
            recipient := ctx.sender }
        else .error (.code ebZeroShares)
      else .error (.code ebZeroAmount) := by
  have hback := hv.backed
  have hmint := (v.pool hv).minted_le coin
  have hshares : (if v.totalShares = 0 then pure coin
      else mulDiv coin v.totalShares v.reserves) = .ok ((v.pool hv).minted coin) := by
    by_cases h0 : v.totalShares = 0
    · rw [if_pos h0, SharePool.minted_of_empty (p := v.pool hv) h0, pure_eq_ok]
    · have hpos : 0 < (v.pool hv).shares := Nat.pos_of_ne_zero h0
      have hval := SharePool.minted_of_pos (w := coin) hpos
      have hval' : (v.pool hv).minted coin = coin * v.totalShares / v.reserves := hval
      have hres : 0 < v.reserves := SharePool.reserves_pos hpos
      rw [if_neg h0, hval']
      exact mulDiv_of_le (by omega) (by omega) hres (by omega)
  by_cases hc : 0 < coin
  · by_cases hm : 0 < (v.pool hv).minted coin
    · have hsum : v.totalShares + (v.pool hv).minted coin ≤ u64Max := by omega
      rw [if_pos hc, if_pos hm, delegate, require_of hc, bind_ok, hshares, bind_ok,
        require_of hm, bind_ok, balanceJoin_of_le hfit, bind_ok, checked_of_le hsum, bind_ok,
        pure_eq_ok]
    · rw [if_pos hc, if_neg hm, delegate, require_of hc, bind_ok, hshares, bind_ok,
        require_of_not hm, bind_error]
  · rw [if_neg hc, delegate, require_of_not hc, bind_error]

/-- What an accepted `delegate` returns. -/
theorem delegate_eq_ok_iff {v : PeerVault} (hv : v.Solvent) {coin : ℕ} {ctx : TxContext}
    {out : Delegated} (hfit : v.reserves + coin ≤ u64Max) :
    delegate v coin ctx = .ok out ↔
      0 < coin ∧ 0 < (v.pool hv).minted coin ∧
        out = {
          vault := { v with
            reserves := v.reserves + coin
            totalShares := v.totalShares + (v.pool hv).minted coin }
          event := ⟨ctx.sender, v.peerAddress, coin, (v.pool hv).minted coin⟩
          certificate := ⟨ctx.freshId, v.id, (v.pool hv).minted coin⟩
          recipient := ctx.sender } := by
  rw [delegate_eq hv hfit]
  by_cases hcoin : 0 < coin
  · by_cases hmint : 0 < (v.pool hv).minted coin
    · simp [hcoin, hmint, eq_comm]
    · simp [hcoin, hmint]
  · simp [hcoin]

/-- **What `undelegate` does** with a certificate of the vault that holds some of its
outstanding shares, backed or not: it always pays. -/
theorem undelegate_of_le {v : PeerVault} {cert : ShareCertificate} (hid : v.id = cert.vaultId)
    (hpos : 0 < cert.shares) (hle : cert.shares ≤ v.totalShares) (hfit : v.reserves ≤ u64Max)
    (htotal : v.totalShares ≤ u64Max) (ctx : TxContext) :
    undelegate v cert ctx = .ok {
      vault := { v with
        reserves := v.reserves - cert.shares * v.reserves / v.totalShares
        totalShares := v.totalShares - cert.shares }
      event := ⟨ctx.sender, v.peerAddress, cert.shares,
        cert.shares * v.reserves / v.totalShares⟩
      payout := ⟨ctx.sender, cert.shares * v.reserves / v.totalShares⟩ } := by
  have hpay : cert.shares * v.reserves / v.totalShares ≤ v.reserves := mul_div_le_of_le hle
  have hdiv : mulDiv cert.shares v.reserves v.totalShares
      = .ok (cert.shares * v.reserves / v.totalShares) :=
    mulDiv_of_le (hle.trans htotal) hfit (by omega) (hpay.trans hfit)
  simp only [undelegate, require_of hid, require_of hpos, hdiv, checkedSub_of_le hle,
    balanceSplit_of_le hpay, bind_ok, pure_eq_ok]

/-- On a solvent vault, the payment is that of the pool. -/
theorem undelegate_eq {v : PeerVault} (hv : v.Solvent) {cert : ShareCertificate}
    (hid : v.id = cert.vaultId) (hpos : 0 < cert.shares) (hle : cert.shares ≤ v.totalShares)
    (hfit : v.reserves ≤ u64Max) (ctx : TxContext) :
    undelegate v cert ctx = .ok {
      vault := { v with
        reserves := v.reserves - (v.pool hv).payout cert.shares
        totalShares := v.totalShares - cert.shares }
      event := ⟨ctx.sender, v.peerAddress, cert.shares, (v.pool hv).payout cert.shares⟩
      payout := ⟨ctx.sender, (v.pool hv).payout cert.shares⟩ } :=
  undelegate_of_le hid hpos hle hfit (hv.backed.trans hfit) ctx

/-- The commission on a payment. -/
def PeerVault.commissionOn (v : PeerVault) (amount : ℕ) : ℕ := amount * v.commissionBps / 10000

/-- A commission of at most 10000 basis points is at most the payment. -/
theorem PeerVault.commissionOn_le {v : PeerVault} (hv : v.Solvent) (amount : ℕ) :
    v.commissionOn amount ≤ amount := by
  refine Nat.div_le_of_le_mul ?_
  rw [Nat.mul_comm 10000 amount]
  exact Nat.mul_le_mul_left amount hv.commission

/-- **What `collect_rewards` does** with a payment that keeps the vault's balances within
`u64`: it splits any positive payment without loss. -/
theorem collectRewards_eq {v : PeerVault} (hv : v.Solvent) {coin : ℕ}
    (hfit : v.reserves + v.peerEarnings + coin ≤ u64Max) :
    collectRewards v coin =
      if 0 < coin then
        .ok {
          vault := { v with
            peerEarnings := v.peerEarnings + v.commissionOn coin
            reserves := v.reserves + (coin - v.commissionOn coin) }
          event := ⟨v.peerAddress, coin, v.commissionOn coin⟩ }
      else .error (.code ebZeroAmount) := by
  have hcom := PeerVault.commissionOn_le hv coin
  have hbps := hv.commission
  have hbound : (10000 : ℕ) ≤ u64Max := by decide
  have hdiv : mulDiv coin v.commissionBps 10000 = .ok (v.commissionOn coin) :=
    mulDiv_of_le (by omega) (by omega) (by omega)
      (show v.commissionOn coin ≤ u64Max by omega)
  by_cases hc : 0 < coin
  · have hearn : v.peerEarnings + v.commissionOn coin ≤ u64Max := by omega
    have hres : v.reserves + (coin - v.commissionOn coin) ≤ u64Max := by omega
    rw [if_pos hc, collectRewards, require_of hc, bind_ok, hdiv, bind_ok,
      balanceSplit_of_le hcom, bind_ok, balanceJoin_of_le hearn, bind_ok,
      balanceJoin_of_le hres, bind_ok, pure_eq_ok]
  · rw [if_neg hc, collectRewards, require_of_not hc, bind_error]

/-- **What `settlement::pay` does** with a positive payment: it collects it. -/
theorem pay_eq {v : PeerVault} (hv : v.Solvent) {coin : ℕ} (hc : 0 < coin)
    (hfit : v.reserves + v.peerEarnings + coin ≤ u64Max) (payee : Address)
    (blobHash : List UInt8) (ctx : TxContext) :
    pay v payee blobHash coin ctx = .ok {
      vault := { v with
        peerEarnings := v.peerEarnings + v.commissionOn coin
        reserves := v.reserves + (coin - v.commissionOn coin) }
      rewards := ⟨v.peerAddress, coin, v.commissionOn coin⟩
      payment := ⟨ctx.sender, payee, blobHash, coin⟩ } := by
  rw [pay, require_of hc, bind_ok, collectRewards_eq hv hfit, if_pos hc, bind_ok, pure_eq_ok]

/-- What an accepted `settlement::pay` returns: it refuses an empty coin before it looks at the
vault. -/
theorem pay_eq_ok_iff {v : PeerVault} (hv : v.Solvent) {coin : ℕ} {payee : Address}
    {blobHash : List UInt8} {ctx : TxContext} {out : Paid}
    (hfit : v.reserves + v.peerEarnings + coin ≤ u64Max) :
    pay v payee blobHash coin ctx = .ok out ↔
      0 < coin ∧ out = {
        vault := { v with
          peerEarnings := v.peerEarnings + v.commissionOn coin
          reserves := v.reserves + (coin - v.commissionOn coin) }
        rewards := ⟨v.peerAddress, coin, v.commissionOn coin⟩
        payment := ⟨ctx.sender, payee, blobHash, coin⟩ } := by
  by_cases hc : 0 < coin
  · rw [pay_eq hv hc hfit]
    simp [hc, eq_comm]
  · rw [pay, require_of_not hc, bind_error]
    simp [hc]

/-- **What `claim_earnings` does**: it pays all earnings to the peer, and only to it. -/
theorem claimEarnings_eq_ok_iff {v : PeerVault} {ctx : TxContext} {out : EarningsClaimed} :
    claimEarnings v ctx = .ok out ↔
      ctx.sender = v.peerAddress ∧ 0 < v.peerEarnings ∧
        out = {
          vault := { v with peerEarnings := 0 }
          event := ⟨v.peerAddress, v.peerEarnings⟩
          payout := ⟨ctx.sender, v.peerEarnings⟩ } := by
  by_cases hs : ctx.sender = v.peerAddress
  · by_cases he : 0 < v.peerEarnings
    · simp only [claimEarnings, require_of hs, require_of he, balanceSplit_of_le le_rfl,
        bind_ok, Nat.sub_self, pure_eq_ok]
      simp [hs, he, eq_comm]
    · simp only [claimEarnings, require_of hs, require_of_not he, bind_ok, bind_error]
      simp [he]
  · rw [claimEarnings, require_of_not hs, bind_error]
    simp [hs]

/-- **What `exchange_rate` answers** for reserves that are a `u64`: the scaled rate, rounded
down, unless it is not a `u64`. -/
theorem exchangeRate_eq {v : PeerVault} (hfit : v.reserves ≤ u64Max) :
    exchangeRate v =
      if v.totalShares = 0 then .ok 1000000000
      else if v.reserves * 1000000000 / v.totalShares ≤ u64Max then
        .ok (v.reserves * 1000000000 / v.totalShares)
      else .error (.code 101) := by
  by_cases h0 : v.totalShares = 0
  · rw [exchangeRate, if_pos h0, if_pos h0, pure_eq_ok]
  · have hpos : 0 < v.totalShares := Nat.pos_of_ne_zero h0
    rw [exchangeRate, if_neg h0, if_neg h0, mulDiv_eq hfit (by decide)]
    by_cases hrate : v.reserves * 1000000000 / v.totalShares ≤ u64Max
    · rw [if_pos ⟨hpos, hrate⟩, if_pos hrate]
    · rw [if_neg fun hboth => hrate hboth.2, if_neg hrate]

/-! ### What a call changes, on any vault -/

/-- `delegate` changes nothing of a vault but its reserves and its shares. -/
theorem delegate_frame {v : PeerVault} {coin : ℕ} {ctx : TxContext} {out : Delegated}
    (h : delegate v coin ctx = .ok out) :
    out.vault = { v with
      reserves := out.vault.reserves
      totalShares := out.vault.totalShares } := by
  simp only [delegate, bind_eq_ok_iff, pure_eq_ok] at h
  obtain ⟨_, -, shares, -, _, -, reserves, -, totalShares, -, hout⟩ := h
  obtain rfl := Except.ok.inj hout
  rfl

/-- `undelegate` changes nothing of a vault but its reserves and its shares. -/
theorem undelegate_frame {v : PeerVault} {cert : ShareCertificate} {ctx : TxContext}
    {out : Undelegated} (h : undelegate v cert ctx = .ok out) :
    out.vault = { v with
      reserves := out.vault.reserves
      totalShares := out.vault.totalShares } := by
  simp only [undelegate, bind_eq_ok_iff, pure_eq_ok] at h
  obtain ⟨_, -, _, -, walAmount, -, totalShares, -, reserves, -, hout⟩ := h
  obtain rfl := Except.ok.inj hout
  rfl

/-- What an accepted `collect_rewards` splits a payment into, on any vault. -/
theorem collectRewards_split {v : PeerVault} {coin : ℕ} {out : Collected}
    (h : collectRewards v coin = .ok out) :
    v.commissionOn coin ≤ coin ∧ out.event.commission = v.commissionOn coin ∧
      out.vault = { v with
        peerEarnings := v.peerEarnings + v.commissionOn coin
        reserves := v.reserves + (coin - v.commissionOn coin) } := by
  simp only [collectRewards, mulDiv, bind_eq_ok_iff, pure_eq_ok, balanceSplit_eq_ok_iff,
    balanceJoin_eq_ok_iff] at h
  obtain ⟨_, -, commission, ⟨r, hr, _, -, hcom⟩, rest, ⟨hle, rfl⟩, _, ⟨-, rfl⟩, _, ⟨-, rfl⟩,
    hout⟩ := h
  obtain rfl := Except.ok.inj hcom
  obtain rfl := Except.ok.inj hout
  obtain ⟨-, rfl⟩ := eq_of_u128MulDiv hr
  exact ⟨hle, rfl, rfl⟩

/-! ### Refinement: the calls act on the pool -/

/-- Only a certificate of the vault can be burned in it. -/
theorem undelegate_vaultId {v : PeerVault} {cert : ShareCertificate} {ctx : TxContext}
    {out : Undelegated} (h : undelegate v cert ctx = .ok out) : v.id = cert.vaultId := by
  by_contra hne
  rw [undelegate, require_of_not hne] at h
  simp at h

/-- The result of `delegate` is the same vault, solvent, and its pool is the deposit. -/
theorem delegate_pool {v : PeerVault} (hv : v.Solvent) {coin : ℕ} {ctx : TxContext}
    {out : Delegated} (hfit : v.reserves + coin ≤ u64Max)
    (h : delegate v coin ctx = .ok out) :
    v.id = out.vault.id ∧
      ∃ hout : out.vault.Solvent, out.vault.pool hout = (v.pool hv).deposit coin := by
  obtain ⟨-, -, rfl⟩ := (delegate_eq_ok_iff hv hfit).mp h
  exact ⟨rfl, ⟨((v.pool hv).deposit coin).backed, hv.commission⟩, rfl⟩

/-- The result of `undelegate` is the same vault, solvent, and its pool is the redemption. -/
theorem undelegate_pool {v : PeerVault} (hv : v.Solvent) {cert : ShareCertificate}
    {ctx : TxContext} {out : Undelegated} (hid : v.id = cert.vaultId)
    (hpos : 0 < cert.shares) (hle : cert.shares ≤ v.totalShares)
    (hfit : v.reserves ≤ u64Max) (h : undelegate v cert ctx = .ok out) :
    v.id = out.vault.id ∧
      ∃ hout : out.vault.Solvent, out.vault.pool hout = (v.pool hv).redeem cert.shares := by
  rw [undelegate_eq hv hid hpos hle hfit] at h
  obtain rfl := Except.ok.inj h
  exact ⟨rfl, ⟨((v.pool hv).redeem cert.shares).backed, hv.commission⟩, rfl⟩

/-- The result of `settlement::pay` is the same vault, solvent, and its pool got the
payment less the commission. -/
theorem pay_pool {v : PeerVault} (hv : v.Solvent) {coin : ℕ} {payee : Address}
    {blobHash : List UInt8} {ctx : TxContext} {out : Paid}
    (hfit : v.reserves + v.peerEarnings + coin ≤ u64Max)
    (h : pay v payee blobHash coin ctx = .ok out) :
    v.id = out.vault.id ∧ ∃ hout : out.vault.Solvent,
      out.vault.pool hout = (v.pool hv).donate (coin - v.commissionOn coin) := by
  obtain ⟨-, rfl⟩ := (pay_eq_ok_iff hv hfit).mp h
  exact ⟨rfl, ⟨((v.pool hv).donate (coin - v.commissionOn coin)).backed, hv.commission⟩, rfl⟩

/-- `claim_earnings` leaves the vault's pool alone. -/
theorem claimEarnings_pool {v : PeerVault} (hv : v.Solvent) {ctx : TxContext}
    {out : EarningsClaimed} (h : claimEarnings v ctx = .ok out) :
    v.id = out.vault.id ∧
      ∃ hout : out.vault.Solvent, out.vault.pool hout = v.pool hv := by
  obtain ⟨-, -, rfl⟩ := claimEarnings_eq_ok_iff.mp h
  exact ⟨rfl, ⟨hv.backed, hv.commission⟩, rfl⟩

end ZingCdn
