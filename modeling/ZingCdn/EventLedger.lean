import ZingCdn.Library.EventLog
import ZingCdn.Solvency

/-!
# The Event Log as a Ledger

The events of the vault and settlement modules account for every frost and every share.
Each accepted transaction posts its events together with the matching change of one
vault (`VaultLedger.Posted`), built from locals that the contracts compute before or after
the balances move; the accounting rule of the event log turns the step into a statement
about whole runs.

## Main results

* `VaultLedger.vault_event_ledger`: in every reachable ledger the reserves, the shares and
  the unclaimed earnings of all vaults of a peer are the totals of the events that name
  the peer, the coins sent out are those of the undelegation and claim events, and WAL
  leaves a vault only when one of its certificates is burned by its owner or when its peer
  claims.
-/

open Relation

namespace ZingCdn

/-! ### Reading the log -/

namespace VaultEvent

/-- The undelegation, delegation, rewards or claim an event reports, if it is one. -/
@[simp] def delegate? : VaultEvent → Option DelegateEvent
  | .delegate e => some e
  | _ => none

@[simp, inherit_doc delegate?] def undelegate? : VaultEvent → Option UndelegateEvent
  | .undelegate e => some e
  | _ => none

@[simp, inherit_doc delegate?] def rewards? : VaultEvent → Option RewardsEvent
  | .rewards e => some e
  | _ => none

@[simp, inherit_doc delegate?] def earningsClaimed? : VaultEvent → Option EarningsClaimedEvent
  | .earningsClaimed e => some e
  | _ => none

/-- The coin that left a vault under an event: to the delegator who undelegated, or to the
peer who claimed. -/
@[simp] def payout? : VaultEvent → Option CoinTransfer
  | .undelegate e => some ⟨e.delegator, e.walAmount⟩
  | .earningsClaimed e => some ⟨e.peer, e.amount⟩
  | _ => none

/-- An amount of an event of one kind that names the peer `p`; zero for every other
event. -/
@[simp] def amountFor {ε : Type} (kind : VaultEvent → Option ε) (peer : ε → Address)
    (amount : ε → ℤ) (p : Address) (e : VaultEvent) : ℤ :=
  match kind e with
  | some d => if peer d = p then amount d else 0
  | none => 0

end VaultEvent

namespace VaultLedger

variable {l l' : VaultLedger}

/-- The sum of an amount over the logged events of one kind that name the peer `p`. -/
def logged {ε : Type} (l : VaultLedger) (kind : VaultEvent → Option ε) (peer : ε → Address)
    (amount : ε → ℤ) (p : Address) : ℤ :=
  EventLog.total (VaultEvent.amountFor kind peer amount p) l.events

/-- The sum of a quantity over the vaults of the peer `p`. -/
def heldFor (l : VaultLedger) (quantity : PeerVault → ℕ) (p : Address) : ℕ :=
  ((l.vaults.filter fun v => v.peerAddress = p).map quantity).sum

/-! ### What events do to a peer's vaults -/

/-- What an event does to the reserves of the peer's vaults. -/
def reservesChange (p : Address) (e : VaultEvent) : ℤ :=
  VaultEvent.amountFor VaultEvent.delegate? (·.peer) (·.walAmount) p e
    - VaultEvent.amountFor VaultEvent.undelegate? (·.peer) (·.walAmount) p e
    + VaultEvent.amountFor VaultEvent.rewards? (·.peer) (fun r => r.amount - r.commission) p e

/-- What an event does to the shares of the peer's vaults. -/
def sharesChange (p : Address) (e : VaultEvent) : ℤ :=
  VaultEvent.amountFor VaultEvent.delegate? (·.peer) (·.shares) p e
    - VaultEvent.amountFor VaultEvent.undelegate? (·.peer) (·.shares) p e

/-- What an event does to the unclaimed earnings of the peer's vaults. -/
def earningsChange (p : Address) (e : VaultEvent) : ℤ :=
  VaultEvent.amountFor VaultEvent.rewards? (·.peer) (·.commission) p e
    - VaultEvent.amountFor VaultEvent.earningsClaimed? (·.peer) (·.amount) p e

/-- A quantity of the peer's vaults, vault by vault. -/
theorem heldFor_eq_sum (l : VaultLedger) (quantity : PeerVault → ℕ) (p : Address) :
    l.heldFor quantity p
      = (l.vaults.map fun v => if v.peerAddress = p then quantity v else 0).sum := by
  simp [heldFor, List.sum_map_ite]

/-- A new vault without the quantity changes no sum. -/
theorem heldFor_cons {v : PeerVault} {quantity : PeerVault → ℕ} (hv : quantity v = 0)
    (hvaults : l'.vaults = v :: l.vaults) (p : Address) :
    l'.heldFor quantity p = l.heldFor quantity p := by
  simp [heldFor_eq_sum, hvaults, hv]

/-- Updating a vault changes the sum of its peer by exactly the change of the vault. -/
theorem heldFor_setVault (h : l.Valid) {v w : PeerVault} (hw : w ∈ l.vaults)
    (hid : w.id = v.id) (hpeer : w.peerAddress = v.peerAddress)
    (hvaults : l'.vaults = (l.setVault v).vaults) (quantity : PeerVault → ℕ) (p : Address) :
    (l'.heldFor quantity p : ℤ) = l.heldFor quantity p
      + if v.peerAddress = p then (quantity v : ℤ) - quantity w else 0 := by
  have hsum := KeyedList.sum_replace (fun v => if v.peerAddress = p then quantity v else 0)
    h.vaults_nodup hw hid
  rw [heldFor_eq_sum, heldFor_eq_sum, hvaults, setVault]
  simp only [hpeer] at hsum
  split <;> simp only [*, if_true, if_false] at hsum ⊢ <;> omega

/-! ### What a transaction posts -/

/-- The entries a step appends to the log account for what it did to the vaults of every
peer and for the coins it sent out. -/
structure Posted (l l' : VaultLedger) (es : List VaultEvent) : Prop where
  events : l'.events = l.events ++ es
  reserves : ∀ p, (l'.heldFor PeerVault.reserves p : ℤ) =
    l.heldFor PeerVault.reserves p + EventLog.total (reservesChange p) es
  shares : ∀ p, (l'.heldFor PeerVault.totalShares p : ℤ) =
    l.heldFor PeerVault.totalShares p + EventLog.total (sharesChange p) es
  earnings : ∀ p, (l'.heldFor PeerVault.peerEarnings p : ℤ) =
    l.heldFor PeerVault.peerEarnings p + EventLog.total (earningsChange p) es
  transfers : l'.transfers = l.transfers ++ es.filterMap VaultEvent.payout?

/-- A step that leaves the vaults, the log and the transfers alone posts nothing. -/
theorem Posted.nothing (hvaults : l'.vaults = l.vaults) (hevents : l'.events = l.events)
    (htransfers : l'.transfers = l.transfers) : Posted l l' [] := by
  constructor <;> simp [heldFor, hvaults, hevents, htransfers]

/-- A new vault holds nothing, so nothing is posted for it. -/
theorem Posted.addVault {v : PeerVault} (hvaults : l'.vaults = v :: l.vaults)
    (hreserves : v.reserves = 0) (hshares : v.totalShares = 0) (hearnings : v.peerEarnings = 0)
    (hevents : l'.events = l.events) (htransfers : l'.transfers = l.transfers) :
    Posted l l' [] := by
  constructor <;>
    simp [heldFor_cons hreserves hvaults, heldFor_cons hshares hvaults,
      heldFor_cons hearnings hvaults, hevents, htransfers]

/-- **The posting rule.** A call that replaces the vault `w` by `v` posts entries that
make, for the peer of the vault, the three changes of the vault, and for no other peer
any. -/
theorem Posted.update (h : l.Valid) {v w : PeerVault} {es : List VaultEvent}
    (hw : w ∈ l.vaults) (hvaults : l'.vaults = (l.setVault v).vaults)
    (hevents : l'.events = l.events ++ es) (hid : w.id = v.id)
    (hpeer : w.peerAddress = v.peerAddress)
    (htransfers : l'.transfers = l.transfers ++ es.filterMap VaultEvent.payout?)
    (hreserves : ∀ p, EventLog.total (reservesChange p) es =
      if v.peerAddress = p then (v.reserves : ℤ) - w.reserves else 0)
    (hshares : ∀ p, EventLog.total (sharesChange p) es =
      if v.peerAddress = p then (v.totalShares : ℤ) - w.totalShares else 0)
    (hearnings : ∀ p, EventLog.total (earningsChange p) es =
      if v.peerAddress = p then (v.peerEarnings : ℤ) - w.peerEarnings else 0) :
    Posted l l' es where
  events := hevents
  reserves p := by rw [heldFor_setVault h hw hid hpeer hvaults, hreserves p]
  shares p := by rw [heldFor_setVault h hw hid hpeer hvaults, hshares p]
  earnings p := by rw [heldFor_setVault h hw hid hpeer hvaults, hearnings p]
  transfers := htransfers

/-- Every accepted transaction from a ledger of a run posts what it did. -/
theorem Posted.of_accepted (h : l.Valid) {ctx : TxContext} {c : VaultCall}
    (hacc : Accepted l ctx c l') : ∃ es, Posted l l' es := by
  cases hacc with
  | createVault _ ok =>
      obtain ⟨-, rfl⟩ := createVault_eq_ok_iff.mp ok
      exact ⟨[], .addVault rfl rfl rfl rfl rfl rfl⟩
  | newVault _ ok =>
      obtain ⟨-, -, rfl⟩ := newVault_eq_ok_iff.mp ok
      exact ⟨[], .addVault rfl rfl rfl rfl rfl rfl⟩
  | @delegate vault coin v out fresh hcoin hv ok =>
      have hmem := mem_of_vault? hv
      have hsup := h.holdings_le hmem
      obtain ⟨-, -, rfl⟩ := (delegate_eq_ok_iff (h.solvent v hmem) (by omega)).mp ok
      refine ⟨_, .update h hmem rfl rfl rfl rfl (by simp [setVault]) ?_ ?_ ?_⟩ <;> intro p <;>
        by_cases hp : v.peerAddress = p <;>
        simp [reservesChange, sharesChange, earningsChange, hp]
  | @undelegate vault cert c v out hc owner hv ok =>
      have hmem := mem_of_vault? hv
      have hcmem := mem_of_cert? hc
      obtain ⟨hid, hle, hpay, rfl⟩ := h.undelegate_out hmem hcmem ok
      refine ⟨_, .update h hmem rfl rfl rfl rfl (by simp) ?_ ?_ ?_⟩ <;> intro p <;>
        by_cases hp : v.peerAddress = p <;>
        simp [reservesChange, sharesChange, earningsChange, hp, hpay, hle]
  | @pay vault payee blobHash coin v out hcoin hv ok =>
      have hmem := mem_of_vault? hv
      obtain ⟨hcom, rfl⟩ := h.pay_out hmem hcoin ok
      refine ⟨_, .update h hmem rfl rfl rfl rfl (by simp [setVault]) ?_ ?_ ?_⟩ <;> intro p <;>
        by_cases hp : v.peerAddress = p <;>
        simp [reservesChange, sharesChange, earningsChange, hp, hcom]
  | @claimEarnings vault v out hv ok =>
      have hmem := mem_of_vault? hv
      obtain ⟨hsender, -, rfl⟩ := claimEarnings_eq_ok_iff.mp ok
      refine ⟨_, .update h hmem rfl rfl rfl rfl (by simp [hsender]) ?_ ?_ ?_⟩ <;> intro p <;>
        by_cases hp : v.peerAddress = p <;>
        simp [reservesChange, sharesChange, earningsChange, hp]
  | transfer _ _ => exact ⟨[], .nothing rfl rfl rfl⟩

/-! ### How WAL leaves a vault -/

/-- The two ways WAL leaves a vault: the owner of one of its certificates burns it, or the
peer of the vault claims its earnings. What the vault loses is sent to the sender. -/
inductive Withdrawal (l l' : VaultLedger) (ctx : TxContext) (v v' : PeerVault) : Prop
  | burn (c : OwnedCertificate) (live : c ∈ l.certs) (owner : c.owner = ctx.sender)
      (ofVault : c.certificate.vaultId = v.id) (burned : c ∉ l'.certs)
      (paid : l'.transfers = l.transfers ++ [⟨ctx.sender, holdings v - holdings v'⟩])
  | claim (peer : ctx.sender = v.peerAddress) (reserves : v'.reserves = v.reserves)
      (paid : l'.transfers = l.transfers ++ [⟨ctx.sender, holdings v - holdings v'⟩])

/-- A vault is still there after a transaction, and has lost WAL only by a withdrawal. -/
def Kept (l l' : VaultLedger) (ctx : TxContext) (v : PeerVault) : Prop :=
  ∃ v' ∈ l'.vaults, v'.id = v.id ∧ v'.peerAddress = v.peerAddress ∧
    (holdings v ≤ holdings v' ∨ Withdrawal l l' ctx v v')

/-- A vault the transaction does not touch is kept. -/
theorem Kept.of_mem {ctx : TxContext} {v : PeerVault} (hv : v ∈ l'.vaults) : Kept l l' ctx v :=
  ⟨v, hv, rfl, rfl, .inl le_rfl⟩

/-- A new vault without WAL conserves WAL and keeps all vaults. -/
theorem conserved_addVault {ctx : TxContext} {v : PeerVault}
    (hvaults : l'.vaults = v :: l.vaults) (hcirc : l'.circulating = l.circulating)
    (hv : holdings v = 0) :
    l'.circulating + l'.locked = l.circulating + l.locked ∧
      ∀ u ∈ l.vaults, Kept l l' ctx u := by
  constructor
  · rw [locked, hvaults, List.map_cons, List.sum_cons, hv, Nat.zero_add, hcirc, locked]
  · intro u hu
    exact .of_mem (hvaults ▸ List.mem_cons_of_mem _ hu)

/-- **The conservation rule.** An update of one vault that balances with what circulates,
and that gives the vault WAL or is a withdrawal from it, conserves WAL and keeps all
vaults. -/
theorem conserved_update (h : l.Valid) {ctx : TxContext} {v w : PeerVault} (hw : w ∈ l.vaults)
    (hvaults : l'.vaults = (l.setVault v).vaults) (hid : w.id = v.id)
    (hpeer : w.peerAddress = v.peerAddress)
    (hcirc : l'.circulating + holdings v = l.circulating + holdings w)
    (hloss : holdings w ≤ holdings v ∨ Withdrawal l l' ctx w v) :
    l'.circulating + l'.locked = l.circulating + l.locked ∧
      ∀ u ∈ l.vaults, Kept l l' ctx u := by
  constructor
  · have hlocked := locked_setVault h hw hid
    have hl' : l'.locked = (l.setVault v).locked := by rw [locked, locked, hvaults]
    omega
  · intro u hu
    by_cases hk : u.id = v.id
    · obtain rfl := KeyedList.eq_of_key_eq h.vaults_nodup hu hw (hk.trans hid.symm)
      refine ⟨v, ?_, hid.symm, hpeer.symm, hloss⟩
      rw [hvaults]
      exact KeyedList.mem_replace_self hw hid
    · refine .of_mem ?_
      rw [hvaults]
      exact KeyedList.mem_replace_of_ne hu hk

/-- Every accepted transaction conserves WAL and keeps all vaults. -/
theorem conserved_of_accepted (h : l.Valid) {ctx : TxContext} {c : VaultCall}
    (hacc : Accepted l ctx c l') :
    l'.circulating + l'.locked = l.circulating + l.locked ∧
      ∀ v ∈ l.vaults, Kept l l' ctx v := by
  cases hacc with
  | createVault _ ok =>
      obtain ⟨-, rfl⟩ := createVault_eq_ok_iff.mp ok
      exact conserved_addVault rfl rfl rfl
  | newVault _ ok =>
      obtain ⟨-, -, rfl⟩ := newVault_eq_ok_iff.mp ok
      exact conserved_addVault rfl rfl rfl
  | @delegate vault coin v out fresh hcoin hv ok =>
      have hmem := mem_of_vault? hv
      have hsup := h.holdings_le hmem
      obtain ⟨-, -, rfl⟩ := (delegate_eq_ok_iff (h.solvent v hmem) (by omega)).mp ok
      refine conserved_update h hmem rfl rfl rfl ?_ (.inl ?_) <;> simp only [holdings] <;> omega
  | @undelegate vault cert c v out hc owner hv ok =>
      have hmem := mem_of_vault? hv
      have hcmem := mem_of_cert? hc
      obtain ⟨hid, hle, hpay, rfl⟩ := h.undelegate_out hmem hcmem ok
      refine conserved_update h hmem rfl rfl rfl ?_
        (.inr (.burn c hcmem owner hid.symm ?_ ?_))
      · simp only [holdings]
        omega
      · intro hin
        exact (KeyedList.mem_remove.mp hin).2 (id_of_cert? hc)
      · simp only [holdings, List.append_cancel_left_eq, List.cons.injEq, CoinTransfer.mk.injEq,
          true_and, and_true]
        omega
  | @pay vault payee blobHash coin v out hcoin hv ok =>
      have hmem := mem_of_vault? hv
      obtain ⟨hcom, rfl⟩ := h.pay_out hmem hcoin ok
      refine conserved_update h hmem rfl rfl rfl ?_ (.inl ?_) <;> simp only [holdings] <;> omega
  | @claimEarnings vault v out hv ok =>
      have hmem := mem_of_vault? hv
      obtain ⟨hsender, -, rfl⟩ := claimEarnings_eq_ok_iff.mp ok
      refine conserved_update h hmem rfl rfl rfl ?_ (.inr (.claim hsender rfl ?_))
      · simp only [holdings]
        omega
      · simp [holdings]
  | transfer _ _ => exact ⟨rfl, fun v hv => .of_mem hv⟩

/-! ### Whole runs -/

/-- Every step of a run posts what it did. -/
theorem Posted.of_step (h : l.Valid) (hs : Step l l') : ∃ es, Posted l l' es := by
  cases hs with
  | tx ctx c hsub => exact Posted.of_accepted h (accepted_of_submit hsub)
  | supply circulating _ => exact ⟨[], .nothing rfl rfl rfl⟩

/-- A quantity that every posted step changes by the total of its entries is the total of
the log. -/
theorem heldFor_eq_total {quantity : PeerVault → ℕ} {change : Address → VaultEvent → ℤ}
    (hchange : ∀ l l' es p, Posted l l' es → (l'.heldFor quantity p : ℤ) =
      l.heldFor quantity p + EventLog.total (change p) es)
    (h : l.Reachable) (p : Address) :
    (l.heldFor quantity p : ℤ) = EventLog.total (change p) l.events := by
  refine EventLog.eq_total (change p) (q := fun l => (l.heldFor quantity p : ℤ)) ?_ ?_ h
  · rintro l₀ ⟨hvaults, -, -, hevents, -, -⟩
    exact ⟨hevents, by simp [heldFor, hvaults]⟩
  · intro l₁ l₂ hreach hs
    obtain ⟨es, hes⟩ := Posted.of_step (valid_of_reachable hreach) hs
    exact ⟨es, hes.events, hchange l₁ l₂ es p hes⟩

/-- The coins sent out are those the log reports. -/
theorem transfers_eq_filterMap (h : l.Reachable) :
    l.transfers = l.events.filterMap VaultEvent.payout? := by
  refine EventLog.eq_filterMap VaultEvent.payout? ?_ ?_ h
  · rintro l₀ ⟨-, -, -, hevents, htransfers, -⟩
    exact ⟨hevents, htransfers⟩
  · intro l₁ l₂ hreach hs
    obtain ⟨es, hes⟩ := Posted.of_step (valid_of_reachable hreach) hs
    exact ⟨es, hes.events, hes.transfers⟩

/-- **The event log is a faithful ledger.** In every reachable ledger, for every peer, the
reserves, shares and unclaimed earnings of all its vaults are the totals of the events that
name it; the coins sent out are exactly those of the undelegation events, to the delegator,
and of the claim events, to the peer; and a transaction conserves WAL and takes it from a
vault only when a certificate of the vault is burned by its owner or when the peer of the
vault claims. -/
theorem vault_event_ledger {l : VaultLedger} (h : l.Reachable) :
    (∀ p,
      (l.heldFor PeerVault.reserves p : ℤ) =
          l.logged VaultEvent.delegate? (·.peer) (·.walAmount) p
            - l.logged VaultEvent.undelegate? (·.peer) (·.walAmount) p
            + l.logged VaultEvent.rewards? (·.peer) (fun e => e.amount - e.commission) p ∧
        (l.heldFor PeerVault.totalShares p : ℤ) =
          l.logged VaultEvent.delegate? (·.peer) (·.shares) p
            - l.logged VaultEvent.undelegate? (·.peer) (·.shares) p ∧
        (l.heldFor PeerVault.peerEarnings p : ℤ) =
          l.logged VaultEvent.rewards? (·.peer) (·.commission) p
            - l.logged VaultEvent.earningsClaimed? (·.peer) (·.amount) p) ∧
      l.transfers = l.events.filterMap VaultEvent.payout? ∧
      ∀ ctx c l', l.submit ctx c = .ok l' →
        l'.circulating + l'.locked = l.circulating + l.locked ∧
          ∀ v ∈ l.vaults, Kept l l' ctx v := by
  refine ⟨fun p => ⟨?_, ?_, ?_⟩, transfers_eq_filterMap h, ?_⟩
  · have hsum := heldFor_eq_total (fun _ _ _ p hes => hes.reserves p) h p
    rw [hsum, logged, logged, logged, ← EventLog.total_sub, ← EventLog.total_add]
    rfl
  · have hsum := heldFor_eq_total (fun _ _ _ p hes => hes.shares p) h p
    rw [hsum, logged, logged, ← EventLog.total_sub]
    rfl
  · have hsum := heldFor_eq_total (fun _ _ _ p hes => hes.earnings p) h p
    rw [hsum, logged, logged, ← EventLog.total_sub]
    rfl
  · intro ctx c l' hsub
    exact conserved_of_accepted (valid_of_reachable h) (accepted_of_submit hsub)

/-- A vault that was delegated to, paid, and left by its delegator and its peer. -/
def settledVault : VaultLedger where
  vaults := [⟨sampleId 1, sampleAddress 1, 0, 0, 1000, 0⟩]
  certs := []
  peerVaults := [(sampleAddress 1, sampleId 1)]
  circulating := 100
  ids := [sampleId 2, sampleId 1]
  events := [.delegate ⟨sampleAddress 2, sampleAddress 1, 5, 5⟩,
    .rewards ⟨sampleAddress 1, 10, 1⟩, .payment ⟨sampleAddress 3, sampleAddress 1, [], 10⟩,
    .undelegate ⟨sampleAddress 2, sampleAddress 1, 5, 14⟩,
    .earningsClaimed ⟨sampleAddress 1, 1⟩]
  transfers := [⟨sampleAddress 2, 14⟩, ⟨sampleAddress 1, 1⟩]

theorem reachable_settledVault : settledVault.Reachable :=
  reachable_of_replay 100
    [(⟨sampleAddress 1, sampleId 1⟩, .newVault),
      (⟨sampleAddress 2, sampleId 2⟩, .delegate (sampleId 1) 5),
      (⟨sampleAddress 3, sampleId 3⟩, .pay (sampleId 1) (sampleAddress 1) [] 10),
      (⟨sampleAddress 2, sampleId 4⟩, .undelegate (sampleId 1) (sampleId 2)),
      (⟨sampleAddress 1, sampleId 5⟩, .claimEarnings (sampleId 1))] (by decide) (by decide)

theorem vault_event_ledger_settledVault :
    settledVault.transfers = settledVault.events.filterMap VaultEvent.payout? :=
  (vault_event_ledger reachable_settledVault).2.1

end VaultLedger

end ZingCdn
