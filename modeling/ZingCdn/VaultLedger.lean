import ZingCdn.Library.KeyedList
import ZingCdn.Library.Transition
import ZingCdn.PeerVault

/-!
# The Ledger of All Vaults

The chain state the vault contracts act on: the shared vaults, the certificates with
their owners, the registry table, the WAL circulating outside the vaults, every object
id handed out so far, the emitted events and the coins transferred out. A transaction
(`VaultLedger.submit`) names the shared vault it calls and the certificate or coin it
passes; the platform rejects it when an object does not exist, is not the sender's or
when the coin does not exist, and otherwise the contract function decides. A transaction
that fails changes nothing.

`VaultLedger.Step` is one transaction by any sender, or a change of the WAL outside the
vaults (a mint or a burn) that keeps the total supply a `u64`. `VaultLedger.Valid` is the
invariant of every run: each vault is solvent, its shares are exactly those of its live
certificates, and the total supply is a `u64`.
-/

open Relation

namespace ZingCdn

/-- A live certificate and the address that owns it. -/
structure OwnedCertificate where
  owner : Address
  certificate : ShareCertificate
deriving DecidableEq

/-- The events of the vault and settlement modules. -/
inductive VaultEvent
  | delegate (e : DelegateEvent)
  | undelegate (e : UndelegateEvent)
  | rewards (e : RewardsEvent)
  | earningsClaimed (e : EarningsClaimedEvent)
  | payment (e : PaymentEvent)
deriving DecidableEq

/-- The chain state of the vault contracts. -/
structure VaultLedger where
  vaults : List PeerVault
  certs : List OwnedCertificate
  peerVaults : List (Address × ID)
  circulating : ℕ
  ids : List ID
  events : List VaultEvent
  transfers : List CoinTransfer
deriving DecidableEq

/-- The calls a transaction can make. -/
inductive VaultCall
  | createVault (peerAddress : Address) (commissionBps : ℕ)
  | newVault
  | delegate (vault : ID) (coin : ℕ)
  | undelegate (vault cert : ID)
  | pay (vault : ID) (payee : Address) (blobHash : List UInt8) (coin : ℕ)
  | claimEarnings (vault : ID)
  | transfer (cert : ID) (recipient : Address)
deriving DecidableEq

/-- Why a transaction has no effect. -/
inductive TxFailure
  /-- an input object is missing, not the sender's, or its id is not fresh -/
  | rejected
  | aborted (a : Abort)
deriving DecidableEq, Repr

/-- The result of a contract function, as the result of the transaction calling it. -/
def call {α : Type} : Except Abort α → Except TxFailure α
  | .ok a => .ok a
  | .error a => .error (.aborted a)

/-- A call succeeds as its function does. -/
@[simp] theorem call_eq_ok_iff {α : Type} {x : Except Abort α} {a : α} :
    call x = .ok a ↔ x = .ok a := by
  cases x <;> simp [call]

/-- The inputs of a transaction exist and belong to it. -/
def available (p : Prop) [Decidable p] : Except TxFailure Unit :=
  if p then pure () else throw .rejected

/-- What is asked for is there. -/
@[simp] theorem available_eq_ok_iff {p : Prop} [Decidable p] {u : Unit} :
    available p = .ok u ↔ p := by
  by_cases h : p <;> simp [available, h]

/-- An input object, when it exists. -/
def input {α : Type} : Option α → Except TxFailure α
  | some a => .ok a
  | none => .error .rejected

/-- An object is an input when it is there. -/
@[simp] theorem input_eq_ok_iff {α : Type} {x : Option α} {a : α} :
    input x = .ok a ↔ x = some a := by
  cases x <;> simp [input]

/-- The key of a certificate entry. -/
def OwnedCertificate.id (c : OwnedCertificate) : ID := c.certificate.id

/-- The shares of all live certificates of a vault. -/
def liveShares (certs : List OwnedCertificate) (vault : ID) : ℕ :=
  ((certs.filter fun c => c.certificate.vaultId = vault).map (·.certificate.shares)).sum

namespace VaultLedger

/-- The vault with a given id. -/
def vault? (l : VaultLedger) (id : ID) : Option PeerVault :=
  KeyedList.lookup PeerVault.id id l.vaults

/-- The live certificate with a given id. -/
def cert? (l : VaultLedger) (id : ID) : Option OwnedCertificate :=
  KeyedList.lookup OwnedCertificate.id id l.certs

/-- The ledger after a vault was updated. -/
def setVault (l : VaultLedger) (v : PeerVault) : VaultLedger :=
  { l with vaults := KeyedList.replace PeerVault.id v l.vaults }

/-- The WAL held by a vault. -/
def holdings (v : PeerVault) : ℕ := v.reserves + v.peerEarnings

/-- The WAL held by all vaults. -/
def locked (l : VaultLedger) : ℕ := (l.vaults.map holdings).sum

/-- One transaction: the new ledger, or the reason it has no effect. -/
def submit (l : VaultLedger) (ctx : TxContext) : VaultCall → Except TxFailure VaultLedger
  | .createVault peerAddress commissionBps => do
      available (ctx.freshId ∉ l.ids)
      let v ← call (createVault peerAddress commissionBps ctx)
      pure { l with vaults := v :: l.vaults, ids := ctx.freshId :: l.ids }
  | .newVault => do
      available (ctx.freshId ∉ l.ids)
      let (peerVaults, v) ← call (newVault l.peerVaults ctx)
      pure { l with vaults := v :: l.vaults, peerVaults, ids := ctx.freshId :: l.ids }
  | .delegate vault coin => do
      available (ctx.freshId ∉ l.ids)
      available (coin ≤ l.circulating)
      let v ← input (l.vault? vault)
      let out ← call (delegate v coin ctx)
      pure { l.setVault out.vault with
        certs := ⟨out.recipient, out.certificate⟩ :: l.certs
        circulating := l.circulating - coin
        ids := ctx.freshId :: l.ids
        events := l.events ++ [.delegate out.event] }
  | .undelegate vault cert => do
      let c ← input (l.cert? cert)
      available (c.owner = ctx.sender)
      let v ← input (l.vault? vault)
      let out ← call (undelegate v c.certificate ctx)
      pure { l.setVault out.vault with
        certs := KeyedList.remove OwnedCertificate.id cert l.certs
        circulating := l.circulating + out.payout.value
        events := l.events ++ [.undelegate out.event]
        transfers := l.transfers ++ [out.payout] }
  | .pay vault payee blobHash coin => do
      available (coin ≤ l.circulating)
      let v ← input (l.vault? vault)
      let out ← call (pay v payee blobHash coin ctx)
      pure { l.setVault out.vault with
        circulating := l.circulating - coin
        events := l.events ++ [.rewards out.rewards, .payment out.payment] }
  | .claimEarnings vault => do
      let v ← input (l.vault? vault)
      let out ← call (claimEarnings v ctx)
      pure { l.setVault out.vault with
        circulating := l.circulating + out.payout.value
        events := l.events ++ [.earningsClaimed out.event]
        transfers := l.transfers ++ [out.payout] }
  | .transfer cert recipient => do
      let c ← input (l.cert? cert)
      available (c.owner = ctx.sender)
      pure { l with
        certs := KeyedList.replace OwnedCertificate.id ⟨recipient, c.certificate⟩ l.certs }

/-! ### What a transaction does -/

/-- The effects of an accepted transaction, one constructor a call. -/
inductive Accepted (l : VaultLedger) (ctx : TxContext) : VaultCall → VaultLedger → Prop
  | createVault {peerAddress : Address} {commissionBps : ℕ} {v : PeerVault}
      (fresh : ctx.freshId ∉ l.ids)
      (ok : ZingCdn.createVault peerAddress commissionBps ctx = .ok v) :
      Accepted l ctx (.createVault peerAddress commissionBps)
        { l with vaults := v :: l.vaults, ids := ctx.freshId :: l.ids }
  | newVault {peerVaults : List (Address × ID)} {v : PeerVault}
      (fresh : ctx.freshId ∉ l.ids)
      (ok : ZingCdn.newVault l.peerVaults ctx = .ok (peerVaults, v)) :
      Accepted l ctx .newVault
        { l with vaults := v :: l.vaults, peerVaults, ids := ctx.freshId :: l.ids }
  | delegate {vault : ID} {coin : ℕ} {v : PeerVault} {out : Delegated}
      (fresh : ctx.freshId ∉ l.ids) (hcoin : coin ≤ l.circulating)
      (hv : l.vault? vault = some v) (ok : ZingCdn.delegate v coin ctx = .ok out) :
      Accepted l ctx (.delegate vault coin) { l.setVault out.vault with
        certs := ⟨out.recipient, out.certificate⟩ :: l.certs
        circulating := l.circulating - coin
        ids := ctx.freshId :: l.ids
        events := l.events ++ [.delegate out.event] }
  | undelegate {vault cert : ID} {c : OwnedCertificate} {v : PeerVault} {out : Undelegated}
      (hc : l.cert? cert = some c) (owner : c.owner = ctx.sender)
      (hv : l.vault? vault = some v)
      (ok : ZingCdn.undelegate v c.certificate ctx = .ok out) :
      Accepted l ctx (.undelegate vault cert) { l.setVault out.vault with
        certs := KeyedList.remove OwnedCertificate.id cert l.certs
        circulating := l.circulating + out.payout.value
        events := l.events ++ [.undelegate out.event]
        transfers := l.transfers ++ [out.payout] }
  | pay {vault : ID} {payee : Address} {blobHash : List UInt8} {coin : ℕ} {v : PeerVault}
      {out : Paid} (hcoin : coin ≤ l.circulating) (hv : l.vault? vault = some v)
      (ok : ZingCdn.pay v payee blobHash coin ctx = .ok out) :
      Accepted l ctx (.pay vault payee blobHash coin) { l.setVault out.vault with
        circulating := l.circulating - coin
        events := l.events ++ [.rewards out.rewards, .payment out.payment] }
  | claimEarnings {vault : ID} {v : PeerVault} {out : EarningsClaimed}
      (hv : l.vault? vault = some v) (ok : ZingCdn.claimEarnings v ctx = .ok out) :
      Accepted l ctx (.claimEarnings vault) { l.setVault out.vault with
        circulating := l.circulating + out.payout.value
        events := l.events ++ [.earningsClaimed out.event]
        transfers := l.transfers ++ [out.payout] }
  | transfer {cert : ID} {recipient : Address} {c : OwnedCertificate}
      (hc : l.cert? cert = some c) (owner : c.owner = ctx.sender) :
      Accepted l ctx (.transfer cert recipient) { l with
        certs := KeyedList.replace OwnedCertificate.id ⟨recipient, c.certificate⟩ l.certs }

/-- **Inversion of a transaction**: one that takes effect has the effect of its call. -/
theorem accepted_of_submit {l l' : VaultLedger} {ctx : TxContext} {c : VaultCall}
    (h : l.submit ctx c = .ok l') : Accepted l ctx c l' := by
  cases c with
  | createVault peerAddress commissionBps =>
      simp only [submit, bind_eq_ok_iff, available_eq_ok_iff, call_eq_ok_iff, pure_eq_ok] at h
      obtain ⟨_, fresh, v, ok, hl⟩ := h
      exact Except.ok.inj hl ▸ .createVault fresh ok
  | newVault =>
      simp only [submit, bind_eq_ok_iff, available_eq_ok_iff, call_eq_ok_iff, pure_eq_ok] at h
      obtain ⟨_, fresh, ⟨table, v⟩, ok, hl⟩ := h
      exact Except.ok.inj hl ▸ .newVault fresh ok
  | delegate vault coin =>
      simp only [submit, bind_eq_ok_iff, available_eq_ok_iff, call_eq_ok_iff,
        input_eq_ok_iff, pure_eq_ok] at h
      obtain ⟨_, fresh, _, hcoin, v, hv, out, ok, hl⟩ := h
      exact Except.ok.inj hl ▸ .delegate fresh hcoin hv ok
  | undelegate vault cert =>
      simp only [submit, bind_eq_ok_iff, available_eq_ok_iff, call_eq_ok_iff,
        input_eq_ok_iff, pure_eq_ok] at h
      obtain ⟨c, hc, _, owner, v, hv, out, ok, hl⟩ := h
      exact Except.ok.inj hl ▸ .undelegate hc owner hv ok
  | pay vault payee blobHash coin =>
      simp only [submit, bind_eq_ok_iff, available_eq_ok_iff, call_eq_ok_iff,
        input_eq_ok_iff, pure_eq_ok] at h
      obtain ⟨_, hcoin, v, hv, out, ok, hl⟩ := h
      exact Except.ok.inj hl ▸ .pay hcoin hv ok
  | claimEarnings vault =>
      simp only [submit, bind_eq_ok_iff, call_eq_ok_iff, input_eq_ok_iff, pure_eq_ok] at h
      obtain ⟨v, hv, out, ok, hl⟩ := h
      exact Except.ok.inj hl ▸ .claimEarnings hv ok
  | transfer cert recipient =>
      simp only [submit, bind_eq_ok_iff, available_eq_ok_iff, input_eq_ok_iff,
        pure_eq_ok] at h
      obtain ⟨c, hc, _, owner, hl⟩ := h
      exact Except.ok.inj hl ▸ .transfer hc owner

/-- Every effect of an accepted transaction is one that `submit` produces. -/
theorem submit_of_accepted {l l' : VaultLedger} {ctx : TxContext} {c : VaultCall}
    (h : Accepted l ctx c l') : l.submit ctx c = .ok l' := by
  cases h with
  | createVault fresh ok => simp [submit, available, call, fresh, ok]
  | newVault fresh ok => simp [submit, available, call, fresh, ok]
  | delegate fresh hcoin hv ok => simp [submit, available, input, call, fresh, hcoin, hv, ok]
  | undelegate hc owner hv ok => simp [submit, available, input, call, hc, owner, hv, ok]
  | pay hcoin hv ok => simp [submit, available, input, call, hcoin, hv, ok]
  | claimEarnings hv ok => simp [submit, input, call, hv, ok]
  | transfer hc owner => simp [submit, available, input, hc, owner]

/-! ### Runs -/

/-- No vaults, no certificates, and a supply of WAL that is a `u64`. -/
def Genesis (l : VaultLedger) : Prop :=
  l.vaults = [] ∧ l.certs = [] ∧ l.peerVaults = [] ∧ l.events = [] ∧ l.transfers = [] ∧
    l.circulating ≤ u64Max

/-- One step of a run: a transaction by any sender, or a change of the WAL outside the
vaults under a supply that stays a `u64`. -/
inductive Step : VaultLedger → VaultLedger → Prop
  | tx {l l' : VaultLedger} (ctx : TxContext) (c : VaultCall) :
      l.submit ctx c = .ok l' → Step l l'
  | supply {l : VaultLedger} (circulating : ℕ) :
      circulating + l.locked ≤ u64Max → Step l { l with circulating }

/-- The ledgers some run ends in. -/
def Reachable : VaultLedger → Prop := Transition.Reachable Genesis Step

/-- Run a list of transactions in order. -/
def replay (l : VaultLedger) : List (TxContext × VaultCall) → Except TxFailure VaultLedger
  | [] => .ok l
  | (ctx, c) :: rest => l.submit ctx c >>= fun l' => l'.replay rest

/-- The ledger before the first transaction, with some WAL in circulation. -/
def genesis (circulating : ℕ) : VaultLedger := ⟨[], [], [], circulating, [], [], []⟩

/-- A successful replay is a run. -/
theorem run_of_replay {l l' : VaultLedger} {txs : List (TxContext × VaultCall)}
    (h : l.replay txs = .ok l') : ReflTransGen Step l l' := by
  induction txs generalizing l with
  | nil =>
      obtain rfl := Except.ok.inj h
      exact .refl
  | cons tx rest ih =>
      obtain ⟨m, hm, hrest⟩ := bind_eq_ok_iff.mp h
      exact .head (.tx tx.1 tx.2 hm) (ih hrest)

/-- What a replay from a genesis ledger ends in is reachable. -/
theorem reachable_of_replay (circulating : ℕ) {l : VaultLedger}
    (txs : List (TxContext × VaultCall)) (hcirc : circulating ≤ u64Max)
    (h : (genesis circulating).replay txs = .ok l) : l.Reachable :=
  ⟨genesis circulating, ⟨rfl, rfl, rfl, rfl, rfl, hcirc⟩, run_of_replay h⟩

end VaultLedger

/-! ### Concrete addresses and ids -/

/-- The address with 32 equal bytes. -/
def sampleAddress (n : UInt8) : Address := ⟨List.Vector.replicate 32 n⟩

/-- The object id with 32 equal bytes. -/
def sampleId (n : UInt8) : ID := ⟨sampleAddress n⟩

end ZingCdn
