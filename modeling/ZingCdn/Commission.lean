import Mathlib.Algebra.BigOperators.Ring.List
import ZingCdn.Library.Rounding
import ZingCdn.Solvency

/-!
# The Commission of a Payment Stream

Every payment into a vault is split by its commission, rounded down. Over a stream of `n`
payments, whatever delegators and the peer do in between, the commissions sum up to the
commission of the sum less at most `n - 1` frost: rounding down the parts of a sum loses less
than one unit a part (`Rounding.le_sum_map_div_add`), and never gains one.

A run is followed with what one vault collected in it (`VaultLedger.Stream`): each payment
with the vault before and after it, and the coins the peer claimed in between.

## Main results

* `VaultLedger.changed_of_submit`: how a transaction can change a given vault.
* `VaultLedger.exists_stream`: every run is a stream for each of its vaults.
* `VaultLedger.commission_stream`: no payment of a stream loses a frost, and slicing a payment
  into `n` parts moves less than `n` frost between the peer and the delegators.
-/

open Relation

namespace ZingCdn

/-- The calls that move the earnings of a vault: payments into it, and claims. -/
def VaultCall.movesEarnings (vault : ID) : VaultCall → Bool
  | .pay paid _ _ _ => paid = vault
  | .claimEarnings claimed => claimed = vault
  | _ => false

namespace VaultLedger

variable {l l' m m' : VaultLedger} {vault : ID} {v w : PeerVault}

/-! ### What a transaction does to one vault -/

/-- How an accepted transaction changes the vault `v`: it replaces the pool, or it is a payment
into the vault, or the claim of its earnings. -/
inductive Changed (v : PeerVault) : VaultCall → PeerVault → Prop
  | pool {c : VaultCall} (reserves totalShares : ℕ) :
      c.movesEarnings v.id = false → Changed v c { v with reserves, totalShares }
  | paid {payee : Address} {blobHash : List UInt8} {coin : ℕ} :
      v.commissionOn coin ≤ coin → Changed v (.pay v.id payee blobHash coin) { v with
        peerEarnings := v.peerEarnings + v.commissionOn coin
        reserves := v.reserves + (coin - v.commissionOn coin) }
  | claimed : Changed v (.claimEarnings v.id) { v with peerEarnings := 0 }

/-- The vault under an id once the vault `w` was updated to `u`. -/
theorem vault?_update (h' : l'.Valid) {u : PeerVault}
    (hvaults : l'.vaults = (l.setVault u).vaults) (hw : w ∈ l.vaults) (hid : w.id = u.id)
    (hv : v ∈ l.vaults) :
    l'.vault? v.id = some (if v.id = u.id then u else v) := by
  split
  · rename_i hk
    rw [hk]
    exact KeyedList.lookup_of_mem h'.vaults_nodup (hvaults ▸ KeyedList.mem_replace_self hw hid)
  · rename_i hk
    exact KeyedList.lookup_of_mem h'.vaults_nodup
      (hvaults ▸ KeyedList.mem_replace_of_ne hv hk)

/-- **What a transaction does to a vault.** -/
theorem changed_of_submit (h : l.Valid) {ctx : TxContext} {c : VaultCall}
    (hsub : l.submit ctx c = .ok l') (hv : v ∈ l.vaults) :
    ∃ v', l'.vault? v.id = some v' ∧ Changed v c v' := by
  have h' : l'.Valid := h.step (.tx ctx c hsub)
  -- a vault that stays is a vault whose pool is replaced by itself
  have hstays : v ∈ l'.vaults → c.movesEarnings v.id = false →
      ∃ v', l'.vault? v.id = some v' ∧ Changed v c v' := fun hmem hc =>
    ⟨v, KeyedList.lookup_of_mem h'.vaults_nodup hmem, .pool v.reserves v.totalShares hc⟩
  -- the vault the call updates, or another one
  have hupdate : ∀ {u x : PeerVault}, l'.vaults = (l.setVault u).vaults → x ∈ l.vaults →
      x.id = u.id → (x = v → Changed v c u) → (v.id ≠ u.id → c.movesEarnings v.id = false) →
      ∃ v', l'.vault? v.id = some v' ∧ Changed v c v' := by
    intro u x hvaults hx hid hsame hother
    refine ⟨_, vault?_update h' hvaults hx hid hv, ?_⟩
    split
    · rename_i hk
      exact hsame (KeyedList.eq_of_key_eq h.vaults_nodup hx hv (hid.trans hk.symm))
    · rename_i hk
      exact .pool v.reserves v.totalShares (hother hk)
  cases accepted_of_submit hsub with
  | createVault | newVault => exact hstays (List.mem_cons_of_mem _ hv) rfl
  | transfer => exact hstays hv rfl
  | @delegate u coin x out fresh hcoin hx ok =>
      have hframe := delegate_frame ok
      refine hupdate rfl (mem_of_vault? hx) (by rw [hframe]) ?_ fun _ => rfl
      rintro rfl
      rw [hframe]
      exact .pool _ _ rfl
  | @undelegate u cert cc x out hc owner hx ok =>
      have hframe := undelegate_frame ok
      refine hupdate rfl (mem_of_vault? hx) (by rw [hframe]) ?_ fun _ => rfl
      rintro rfl
      rw [hframe]
      exact .pool _ _ rfl
  | @pay u payee blobHash coin x out hcoin hx ok =>
      have hkey : x.id = u := KeyedList.key_of_lookup hx
      simp only [ZingCdn.pay, bind_eq_ok_iff, pure_eq_ok] at ok
      obtain ⟨_, -, collected, hcollected, hout⟩ := ok
      obtain rfl := Except.ok.inj hout
      obtain ⟨hle, -, hvault⟩ := collectRewards_split hcollected
      have hid : x.id = collected.vault.id := by rw [hvault]
      refine hupdate rfl (mem_of_vault? hx) hid ?_ ?_
      · rintro rfl
        rw [← hkey]
        exact hvault ▸ .paid hle
      · intro hne
        exact decide_eq_false fun hu => hne (by rw [← hid, hkey, hu])
  | @claimEarnings u x out hx ok =>
      have hkey : x.id = u := KeyedList.key_of_lookup hx
      obtain ⟨-, -, rfl⟩ := claimEarnings_eq_ok_iff.mp ok
      refine hupdate rfl (mem_of_vault? hx) rfl ?_ ?_
      · rintro rfl
        rw [← hkey]
        exact .claimed
      · intro hne
        exact decide_eq_false fun hu => hne (by rw [← hu, ← hkey])

/-! ### Streams of payments -/

/-- One payment into a vault, with the vault before and after it. -/
structure Collection where
  amount : ℕ
  before : PeerVault
  after : PeerVault
deriving DecidableEq

/-- What a payment added to the peer's earnings. -/
def Collection.commission (c : Collection) : ℕ := c.after.peerEarnings - c.before.peerEarnings

/-- What a payment added to the reserves. -/
def Collection.remainder (c : Collection) : ℕ := c.after.reserves - c.before.reserves

/-- The payment went to the peer and to the delegators without loss, at a commission of `bps`
basis points rounded down. -/
structure Collection.Split (bps : ℕ) (c : Collection) : Prop where
  earnings : c.before.peerEarnings + c.commission = c.after.peerEarnings
  reserves : c.before.reserves + c.remainder = c.after.reserves
  total : c.commission + c.remainder = c.amount
  commission : c.commission = c.amount * bps / 10000

/-- A run from `l`, with the payments the vault collected in it and the sum of the coins its
peer claimed from it. -/
inductive Stream (vault : ID) (l : VaultLedger) : List Collection → ℕ → VaultLedger → Prop
  | start : Stream vault l [] 0 l
  | collect {collected : List Collection} {claimed : ℕ} {m m' : VaultLedger} {ctx : TxContext}
      {payee : Address} {blobHash : List UInt8} {coin : ℕ} {v v' : PeerVault} :
      Stream vault l collected claimed m →
      m.submit ctx (.pay vault payee blobHash coin) = .ok m' →
      m.vault? vault = some v → m'.vault? vault = some v' →
      Stream vault l (collected ++ [⟨coin, v, v'⟩]) claimed m'
  | claim {collected : List Collection} {claimed : ℕ} {m m' : VaultLedger} {ctx : TxContext}
      {payout : CoinTransfer} :
      Stream vault l collected claimed m →
      m.submit ctx (.claimEarnings vault) = .ok m' →
      m'.transfers = m.transfers ++ [payout] →
      Stream vault l collected (claimed + payout.value) m'
  | other {collected : List Collection} {claimed : ℕ} {m m' : VaultLedger} {ctx : TxContext}
      {c : VaultCall} :
      Stream vault l collected claimed m →
      m.submit ctx c = .ok m' → c.movesEarnings vault = false →
      Stream vault l collected claimed m'
  | supply {collected : List Collection} {claimed : ℕ} {m : VaultLedger} (circulating : ℕ) :
      Stream vault l collected claimed m → circulating + m.locked ≤ u64Max →
      Stream vault l collected claimed { m with circulating }

/-- A stream is a run. -/
theorem Stream.run {collected : List Collection} {claimed : ℕ}
    (h : Stream vault l collected claimed l') : ReflTransGen Step l l' := by
  induction h with
  | start => exact .refl
  | collect _ hsub _ _ ih => exact .tail ih (.tx _ _ hsub)
  | claim _ hsub _ ih => exact .tail ih (.tx _ _ hsub)
  | other _ hsub _ ih => exact .tail ih (.tx _ _ hsub)
  | supply circulating _ hsup ih => exact .tail ih (.supply circulating hsup)

/-- A claim sends the earnings of the vault to its peer. -/
theorem transfers_of_claim {ctx : TxContext}
    (hsub : m.submit ctx (.claimEarnings vault) = .ok m') (hv : m.vault? vault = some v) :
    m'.transfers = m.transfers ++ [⟨ctx.sender, v.peerEarnings⟩] := by
  cases accepted_of_submit hsub with
  | @claimEarnings _ x out hx ok =>
      obtain rfl : x = v := Option.some.inj (hx.symm.trans hv)
      obtain ⟨-, -, rfl⟩ := claimEarnings_eq_ok_iff.mp ok
      rfl

/-- What a stream did to the vault: its commission is the same, its earnings are the
commissions collected less the coins claimed, and every payment was split. -/
structure Credited (v v' : PeerVault) (collected : List Collection) (claimed : ℕ) : Prop where
  commissionBps : v'.commissionBps = v.commissionBps
  earnings : v'.peerEarnings + claimed
    = v.peerEarnings + (collected.map Collection.commission).sum
  split : ∀ c ∈ collected, c.Split v.commissionBps

/-- A payment into the vault is one more collection. -/
theorem Credited.collect {v₀ : PeerVault} {collected : List Collection} {claimed coin : ℕ}
    (h : Credited v₀ v collected claimed) (hle : v.commissionOn coin ≤ coin) {v' : PeerVault}
    (hv' : v' = { v with
      peerEarnings := v.peerEarnings + v.commissionOn coin
      reserves := v.reserves + (coin - v.commissionOn coin) }) :
    Credited v₀ v' (collected ++ [⟨coin, v, v'⟩]) claimed := by
  subst hv'
  have hcom : v.commissionOn coin = coin * v₀.commissionBps / 10000 := by
    rw [PeerVault.commissionOn, h.commissionBps]
  have hearn := h.earnings
  refine ⟨h.commissionBps, ?_, ?_⟩
  · rw [List.map_append, List.sum_append, List.map_singleton, List.sum_singleton,
      Collection.commission]
    dsimp only
    omega
  · intro c hc
    rcases List.mem_append.mp hc with hold | hnew
    · exact h.split c hold
    · obtain rfl := List.mem_singleton.mp hnew
      constructor <;> simp only [Collection.commission, Collection.remainder] <;> omega

/-- **What a stream credits.** Along every stream the vault stays, and its earnings are those
it had, the commissions of the payments, less the claims. -/
theorem Stream.credited (h : l.Valid) (hv : l.vault? vault = some v)
    {collected : List Collection} {claimed : ℕ} (hrun : Stream vault l collected claimed l') :
    ∃ v', l'.vault? vault = some v' ∧ Credited v v' collected claimed := by
  induction hrun with
  | start => exact ⟨v, hv, rfl, rfl, fun c hc => absurd hc (List.not_mem_nil)⟩
  | @collect collected claimed m m' ctx payee blobHash coin u u' hprev hsub hu hu' ih =>
      obtain ⟨w, hw, hcred⟩ := ih
      obtain rfl : w = u := Option.some.inj (hw.symm.trans hu)
      have hwk : w.id = vault := KeyedList.key_of_lookup hw
      subst hwk
      obtain ⟨w', hw', hchg⟩ := changed_of_submit (h.run hprev.run) hsub (mem_of_vault? hw)
      obtain rfl : w' = u' := Option.some.inj (hw'.symm.trans hu')
      refine ⟨w', hw', ?_⟩
      cases hchg with
      | pool _ _ hc => exact absurd hc (by simp [VaultCall.movesEarnings])
      | paid hle => exact hcred.collect hle rfl
  | @claim collected claimed m m' ctx payout hprev hsub hpay ih =>
      obtain ⟨w, hw, hcred⟩ := ih
      have hwk : w.id = vault := KeyedList.key_of_lookup hw
      subst hwk
      obtain ⟨w', hw', hchg⟩ := changed_of_submit (h.run hprev.run) hsub (mem_of_vault? hw)
      refine ⟨w', hw', ?_⟩
      have hcoin : payout.value = w.peerEarnings := by
        have htransfers := (transfers_of_claim hsub hw).symm.trans hpay
        have hpayout := List.singleton_inj.mp (List.append_cancel_left htransfers)
        rw [← hpayout]
      cases hchg with
      | pool _ _ hc => exact absurd hc (by simp [VaultCall.movesEarnings])
      | claimed =>
          refine ⟨hcred.commissionBps, ?_, hcred.split⟩
          have := hcred.earnings
          dsimp only
          omega
  | @other collected claimed m m' ctx c hprev hsub hc ih =>
      obtain ⟨w, hw, hcred⟩ := ih
      have hwk : w.id = vault := KeyedList.key_of_lookup hw
      subst hwk
      obtain ⟨w', hw', hchg⟩ := changed_of_submit (h.run hprev.run) hsub (mem_of_vault? hw)
      refine ⟨w', hw', ?_⟩
      cases hchg with
      | pool reserves totalShares _ =>
          exact ⟨hcred.commissionBps, hcred.earnings, hcred.split⟩
      | paid => exact absurd hc (by simp [VaultCall.movesEarnings])
      | claimed => exact absurd hc (by simp [VaultCall.movesEarnings])
  | supply circulating hprev hsup ih => exact ih

/-- **Every run is a stream** for each vault of its first ledger. -/
theorem exists_stream (h : l.Valid) (hv : l.vault? vault = some v)
    (hrun : ReflTransGen Step l l') : ∃ collected claimed, Stream vault l collected claimed l' := by
  induction hrun with
  | refl => exact ⟨[], 0, .start⟩
  | @tail m m' hprev hstep ih =>
      obtain ⟨collected, claimed, hstream⟩ := ih
      obtain ⟨w, hw, -⟩ := hstream.credited h hv
      cases hstep with
      | supply circulating hsup => exact ⟨_, _, .supply circulating hstream hsup⟩
      | tx ctx c hsub =>
          rcases Bool.eq_false_or_eq_true (c.movesEarnings vault) with hc | hc
          · have hwk : w.id = vault := KeyedList.key_of_lookup hw
            subst hwk
            obtain ⟨w', hw', -⟩ :=
              changed_of_submit (h.run hprev) hsub (mem_of_vault? hw)
            cases c with
            | pay paid payee blobHash coin =>
                obtain rfl := of_decide_eq_true hc
                exact ⟨_, _, .collect hstream hsub hw hw'⟩
            | claimEarnings claimed =>
                obtain rfl := of_decide_eq_true hc
                exact ⟨_, _, .claim hstream hsub (transfers_of_claim hsub hw)⟩
            | createVault | newVault | delegate | undelegate | transfer =>
                exact absurd hc Bool.false_ne_true
          · exact ⟨_, _, .other hstream hsub hc⟩

/-- The commissions of split payments, and the commission of their sum. -/
theorem sum_commission {collected : List Collection} {bps : ℕ}
    (hsplit : ∀ c ∈ collected, c.Split bps) :
    (collected.map Collection.commission).sum
        ≤ (collected.map Collection.amount).sum * bps / 10000 ∧
      (collected.map Collection.amount).sum * bps / 10000
        ≤ (collected.map Collection.commission).sum + (collected.length - 1) := by
  have hcom : collected.map Collection.commission
      = (collected.map fun c => c.amount * bps).map (· / 10000) := by
    rw [List.map_map]
    exact List.map_congr_left fun c hc => (hsplit c hc).commission
  have hsum : (collected.map Collection.amount).sum * bps
      = (collected.map fun c => c.amount * bps).sum := (List.sum_map_mul_right ..).symm
  have hlow := Rounding.le_sum_map_div_add (collected.map fun c => c.amount * bps) 10000
  rw [List.length_map] at hlow
  rw [hcom, hsum]
  exact ⟨Rounding.sum_map_div_le _ _, hlow⟩

/-- **The commission of a payment stream.** In every run from a reachable ledger, each payment
a vault of `b` basis points collects goes to the peer and to the delegators without loss; the
`n` commissions sum up to at most the commission of the sum, and to at most `n - 1` frost less;
they are what the peer's earnings gain, claims included; and a vault of the same commission
that collects the sum in one payment credits less than `n` frost more. -/
theorem commission_stream {l l' : VaultLedger} (h : l.Reachable) {vault : ID} {v : PeerVault}
    (hv : l.vault? vault = some v) {collected : List Collection} {claimed : ℕ}
    (hrun : Stream vault l collected claimed l') :
    let paid := (collected.map Collection.amount).sum
    let credited := (collected.map Collection.commission).sum
    (∀ c ∈ collected, c.before.peerEarnings + c.commission = c.after.peerEarnings ∧
      c.before.reserves + c.remainder = c.after.reserves ∧
      c.commission + c.remainder = c.amount) ∧
    credited ≤ paid * v.commissionBps / 10000 ∧
    paid * v.commissionBps / 10000 ≤ credited + (collected.length - 1) ∧
    (∃ v', l'.vault? vault = some v' ∧ v'.commissionBps = v.commissionBps ∧
      v'.peerEarnings + claimed = v.peerEarnings + credited) ∧
    ∀ u out, u.commissionBps = v.commissionBps → collectRewards u paid = .ok out →
      credited ≤ out.event.commission ∧
        out.event.commission < credited + collected.length := by
  obtain ⟨v', hv', hcred⟩ := hrun.credited (valid_of_reachable h) hv
  obtain ⟨hhigh, hlow⟩ := sum_commission hcred.split
  refine ⟨fun c hc => ?_, hhigh, hlow, ⟨v', hv', hcred.commissionBps, hcred.earnings⟩, ?_⟩
  · have hsplit := hcred.split c hc
    exact ⟨hsplit.earnings, hsplit.reserves, hsplit.total⟩
  · intro u out hbps hout
    have hcom : out.event.commission
        = (collected.map Collection.amount).sum * v.commissionBps / 10000 := by
      rw [(collectRewards_split hout).2.1, PeerVault.commissionOn, hbps]
    rw [hcom]
    refine ⟨hhigh, ?_⟩
    -- one payment at least was collected, else there was nothing to pay at once
    have hpos : 0 < collected.length := by
      rcases Nat.eq_zero_or_pos collected.length with h0 | hpos
      · rw [List.length_eq_zero_iff.mp h0] at hout
        simp [collectRewards, require] at hout
      · exact hpos
    omega

/-- The ledger after a payment of 15 frost to the vault of the first delegation. -/
def firstSlice : VaultLedger :=
  { firstDelegation with
    vaults := [⟨sampleId 1, sampleAddress 1, 19, 5, 1000, 1⟩]
    circulating := 80
    events := firstDelegation.events ++ [.rewards ⟨sampleAddress 1, 15, 1⟩,
      .payment ⟨sampleAddress 3, sampleAddress 1, [], 15⟩] }

/-- And after a second one. -/
def secondSlice : VaultLedger :=
  { firstSlice with
    vaults := [⟨sampleId 1, sampleAddress 1, 33, 5, 1000, 2⟩]
    circulating := 65
    events := firstSlice.events ++ [.rewards ⟨sampleAddress 1, 15, 1⟩,
      .payment ⟨sampleAddress 3, sampleAddress 1, [], 15⟩] }

/-- Two payments of 15 frost credit one frost each to the peer, one of 30 credits three. -/
theorem commission_stream_secondSlice : 1 + 1 ≤ (15 + 15) * 1000 / 10000 ∧
    (15 + 15) * 1000 / 10000 ≤ 1 + 1 + (2 - 1) := by
  have hpay : firstDelegation.submit ⟨sampleAddress 3, sampleId 3⟩
      (.pay (sampleId 1) (sampleAddress 1) [] 15) = .ok firstSlice := by decide
  have hpay' : firstSlice.submit ⟨sampleAddress 3, sampleId 3⟩
      (.pay (sampleId 1) (sampleAddress 1) [] 15) = .ok secondSlice := by decide
  have hvault : firstDelegation.vault? (sampleId 1)
      = some ⟨sampleId 1, sampleAddress 1, 5, 5, 1000, 0⟩ := by decide
  have hvault₁ : firstSlice.vault? (sampleId 1)
      = some ⟨sampleId 1, sampleAddress 1, 19, 5, 1000, 1⟩ := by decide
  have hvault₂ : secondSlice.vault? (sampleId 1)
      = some ⟨sampleId 1, sampleAddress 1, 33, 5, 1000, 2⟩ := by decide
  obtain ⟨-, hhigh, hlow, -⟩ := commission_stream reachable_firstDelegation hvault
    (.collect (.collect .start hpay hvault hvault₁) hpay' hvault₁ hvault₂)
  exact ⟨hhigh, hlow⟩

end VaultLedger

end ZingCdn
