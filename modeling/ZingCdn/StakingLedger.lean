import ZingCdn.Library.EventLog
import ZingCdn.Staking
import ZingCdn.VaultLedger

/-!
# The Ledger of All Peers

The chain state the staking module acts on: the shared `Peer` objects, the one registry
table, the holder of the admin cap, every object id handed out so far, the emitted events
and the coins transferred out. A transaction (`StakingLedger.submit`) passes the `Peer` it
is about; slashing and deactivating also pass the admin cap, which only its holder can.
Any `u64` coin can be passed: where the WAL comes from is of no concern here.

A `StakingRun` is a ledger together with the accepted transactions that led to it, each
with the ledger it was submitted to. What was registered, added, unstaked and slashed is
read off these moves, not off the events.
-/

open Relation

namespace ZingCdn

/-- The events of the staking module. -/
inductive StakingEvent
  | register (e : RegisterEvent)
  | stake (e : StakeEvent)
  | unstake (e : UnstakeEvent)
  | slash (e : SlashEvent)
  | peerIdUpdated (e : PeerIdUpdatedEvent)
deriving DecidableEq

/-- The chain state of the staking module. -/
structure StakingLedger where
  peers : List Peer
  registry : List (Address × ID)
  adminCap : Address
  ids : List ID
  events : List StakingEvent
  transfers : List CoinTransfer
deriving DecidableEq

/-- The calls a transaction can make; the last hands the admin cap to someone else. -/
inductive StakingCall
  | register (peerId : List UInt8) (bond : ℕ)
  | updatePeerId (peer : ID) (newPeerId : List UInt8)
  | addStake (peer : ID) (coin : ℕ)
  | unstake (peer : ID) (amount : ℕ)
  | slash (peer : ID) (amount : ℕ)
  | deactivate (peer : ID)
  | transferCap (recipient : Address)
deriving DecidableEq

namespace StakingLedger

/-- The peer object with a given id. -/
def peer? (l : StakingLedger) (id : ID) : Option Peer := KeyedList.lookup Peer.id id l.peers

/-- `staking::find_peer`: the object id the registry records for an address. -/
def findPeer (l : StakingLedger) (addr : Address) : Option ID :=
  (KeyedList.lookup Prod.fst addr l.registry).map Prod.snd

/-- The ledger after a peer was updated. -/
def setPeer (l : StakingLedger) (p : Peer) : StakingLedger :=
  { l with peers := KeyedList.replace Peer.id p l.peers }

/-- The WAL in all bonds. -/
def bonded (l : StakingLedger) : ℕ := (l.peers.map Peer.bond).sum

/-- One transaction: the new ledger, or the reason it has no effect. -/
def submit (l : StakingLedger) (ctx : TxContext) : StakingCall → Except TxFailure StakingLedger
  | .register peerId bond => do
      available (ctx.freshId ∉ l.ids)
      available (bond ≤ u64Max)
      let out ← call (register l.registry peerId bond ctx)
      pure { l with
        peers := out.peer :: l.peers
        registry := out.peers
        ids := ctx.freshId :: l.ids
        events := l.events ++ [.register out.event] }
  | .updatePeerId peer newPeerId => do
      let p ← input (l.peer? peer)
      let (p, event) ← call (updatePeerId p newPeerId ctx)
      pure { l.setPeer p with events := l.events ++ [.peerIdUpdated event] }
  | .addStake peer coin => do
      available (coin ≤ u64Max)
      let p ← input (l.peer? peer)
      let (p, event) ← call (addStake p coin)
      pure { l.setPeer p with events := l.events ++ [.stake event] }
  | .unstake peer amount => do
      let p ← input (l.peer? peer)
      let out ← call (unstake p amount ctx)
      pure { l.setPeer out.peer with
        events := l.events ++ [.unstake out.event]
        transfers := l.transfers ++ [out.payout] }
  | .slash peer amount => do
      available (ctx.sender = l.adminCap)
      let p ← input (l.peer? peer)
      let out ← call (slash p amount ctx)
      pure { l.setPeer out.peer with
        events := l.events ++ [.slash out.event]
        transfers := l.transfers ++ [out.payout] }
  | .deactivate peer => do
      available (ctx.sender = l.adminCap)
      let p ← input (l.peer? peer)
      pure (l.setPeer (deactivate p))
  | .transferCap recipient => do
      available (ctx.sender = l.adminCap)
      pure { l with adminCap := recipient }

/-! ### What a transaction does -/

/-- The effects of an accepted transaction, one constructor a call, with each contract
function's own outcome spelled out. -/
inductive Accepted (l : StakingLedger) (ctx : TxContext) : StakingCall → StakingLedger → Prop
  | register {peerId : List UInt8} {bond : ℕ} (fresh : ctx.freshId ∉ l.ids)
      (fits : bond ≤ u64Max) (new : ctx.sender ∉ l.registry.map Prod.fst)
      (enough : minStake ≤ bond) :
      Accepted l ctx (.register peerId bond) { l with
        peers := ⟨ctx.freshId, peerId, ctx.sender, bond, true⟩ :: l.peers
        registry := (ctx.sender, ctx.freshId) :: l.registry
        ids := ctx.freshId :: l.ids
        events := l.events ++ [.register ⟨ctx.sender, peerId⟩] }
  | updatePeerId {peer : ID} {newPeerId : List UInt8} {p : Peer} (hp : l.peer? peer = some p)
      (owner : ctx.sender = p.suiAddress) :
      Accepted l ctx (.updatePeerId peer newPeerId) {
        l.setPeer { p with peerId := newPeerId } with
        events := l.events ++ [.peerIdUpdated ⟨p.suiAddress, p.peerId, newPeerId⟩] }
  | addStake {peer : ID} {coin : ℕ} {p : Peer} (hp : l.peer? peer = some p)
      (fits : p.bond + coin ≤ u64Max) :
      Accepted l ctx (.addStake peer coin) { l.setPeer { p with bond := p.bond + coin } with
        events := l.events ++ [.stake ⟨p.suiAddress, p.bond + coin⟩] }
  | unstake {peer : ID} {amount : ℕ} {p : Peer} (hp : l.peer? peer = some p)
      (owner : ctx.sender = p.suiAddress) (enough : amount + minStake ≤ p.bond) :
      Accepted l ctx (.unstake peer amount) { l.setPeer { p with bond := p.bond - amount } with
        events := l.events ++ [.unstake ⟨p.suiAddress, amount⟩]
        transfers := l.transfers ++ [⟨p.suiAddress, amount⟩] }
  | slash {peer : ID} {amount : ℕ} {p : Peer} (admin : ctx.sender = l.adminCap)
      (hp : l.peer? peer = some p) (enough : amount ≤ p.bond) :
      Accepted l ctx (.slash peer amount) { l.setPeer { p with bond := p.bond - amount } with
        events := l.events ++ [.slash ⟨p.suiAddress, amount⟩]
        transfers := l.transfers ++ [⟨ctx.sender, amount⟩] }
  | deactivate {peer : ID} {p : Peer} (admin : ctx.sender = l.adminCap)
      (hp : l.peer? peer = some p) :
      Accepted l ctx (.deactivate peer) (l.setPeer { p with isActive := false })
  | transferCap {recipient : Address} (admin : ctx.sender = l.adminCap) :
      Accepted l ctx (.transferCap recipient) { l with adminCap := recipient }

/-- **Inversion of a transaction**: one that takes effect has the effect of its call. -/
theorem accepted_of_submit {l l' : StakingLedger} {ctx : TxContext} {c : StakingCall}
    (h : l.submit ctx c = .ok l') : Accepted l ctx c l' := by
  cases c with
  | register peerId bond =>
      simp only [submit, bind_eq_ok_iff, available_eq_ok_iff, call_eq_ok_iff, pure_eq_ok,
        register_eq_ok_iff] at h
      obtain ⟨_, fresh, _, fits, _, ⟨new, enough, rfl⟩, hl⟩ := h
      exact Except.ok.inj hl ▸ .register fresh fits new enough
  | updatePeerId peer newPeerId =>
      simp only [submit, bind_eq_ok_iff, call_eq_ok_iff, input_eq_ok_iff, pure_eq_ok,
        updatePeerId_eq_ok_iff] at h
      obtain ⟨p, hp, _, ⟨owner, rfl⟩, hl⟩ := h
      exact Except.ok.inj hl ▸ .updatePeerId hp owner
  | addStake peer coin =>
      simp only [submit, bind_eq_ok_iff, available_eq_ok_iff, call_eq_ok_iff, input_eq_ok_iff,
        pure_eq_ok, addStake_eq_ok_iff] at h
      obtain ⟨_, _, p, hp, _, ⟨fits, rfl⟩, hl⟩ := h
      exact Except.ok.inj hl ▸ .addStake hp fits
  | unstake peer amount =>
      simp only [submit, bind_eq_ok_iff, call_eq_ok_iff, input_eq_ok_iff, pure_eq_ok,
        unstake_eq_ok_iff] at h
      obtain ⟨p, hp, _, ⟨owner, enough, rfl⟩, hl⟩ := h
      rw [owner] at hl
      exact Except.ok.inj hl ▸ .unstake hp owner enough
  | slash peer amount =>
      simp only [submit, bind_eq_ok_iff, available_eq_ok_iff, call_eq_ok_iff, input_eq_ok_iff,
        pure_eq_ok, slash_eq_ok_iff] at h
      obtain ⟨_, admin, p, hp, _, ⟨enough, rfl⟩, hl⟩ := h
      exact Except.ok.inj hl ▸ .slash admin hp enough
  | deactivate peer =>
      simp only [submit, bind_eq_ok_iff, available_eq_ok_iff, input_eq_ok_iff, pure_eq_ok] at h
      obtain ⟨_, admin, p, hp, hl⟩ := h
      exact Except.ok.inj hl ▸ .deactivate admin hp
  | transferCap recipient =>
      simp only [submit, bind_eq_ok_iff, available_eq_ok_iff, pure_eq_ok] at h
      obtain ⟨_, admin, hl⟩ := h
      exact Except.ok.inj hl ▸ .transferCap admin

/-- The ledger before the first transaction. -/
def genesis (publisher : Address) : StakingLedger := ⟨[], [], publisher, [], [], []⟩

end StakingLedger

/-! ### Runs -/

/-- An accepted transaction and the ledger it was submitted to. -/
structure StakingMove where
  before : StakingLedger
  ctx : TxContext
  call : StakingCall
deriving DecidableEq

/-- A ledger and the accepted transactions that led to it, oldest first. -/
structure StakingRun where
  ledger : StakingLedger
  moves : List StakingMove
deriving DecidableEq

namespace StakingRun

/-- No peers and no moves; the publisher of the package holds the admin cap. -/
def Genesis (run : StakingRun) : Prop :=
  (∃ publisher, run.ledger = StakingLedger.genesis publisher) ∧ run.moves = []

/-- One step of a run: a transaction by any sender. -/
inductive Step : StakingRun → StakingRun → Prop
  | tx {run : StakingRun} {l' : StakingLedger} (ctx : TxContext) (c : StakingCall) :
      run.ledger.submit ctx c = .ok l' →
        Step run ⟨l', run.moves ++ [⟨run.ledger, ctx, c⟩]⟩

/-- The ledgers some run ends in, with the moves of the run. -/
def Reachable : StakingRun → Prop := Transition.Reachable Genesis Step

/-- Run a list of transactions in order. -/
def replay (run : StakingRun) : List (TxContext × StakingCall) → Except TxFailure StakingRun
  | [] => .ok run
  | (ctx, c) :: rest => run.ledger.submit ctx c >>= fun l' =>
      replay ⟨l', run.moves ++ [⟨run.ledger, ctx, c⟩]⟩ rest

/-- What a successful replay of a reachable run ends in is reachable. -/
theorem Reachable.replay {run run' : StakingRun} {txs : List (TxContext × StakingCall)}
    (hreach : run.Reachable) (h : run.replay txs = .ok run') : run'.Reachable := by
  induction txs generalizing run with
  | nil =>
      obtain rfl := Except.ok.inj h
      exact hreach
  | cons tx rest ih =>
      obtain ⟨l', hl', hrest⟩ := bind_eq_ok_iff.mp h
      exact ih (hreach.snoc (.tx tx.1 tx.2 hl')) hrest

/-- The run without moves. -/
def start (publisher : Address) : StakingRun := ⟨StakingLedger.genesis publisher, []⟩

/-- The registry as it is published. -/
theorem reachable_start (publisher : Address) : (start publisher).Reachable :=
  Transition.Reachable.of_init ⟨⟨publisher, rfl⟩, rfl⟩

/-- The run of a list of transactions from the start, or the start when one of them has no
effect. -/
def runOf (publisher : Address) (txs : List (TxContext × StakingCall)) : StakingRun :=
  ((start publisher).replay txs).toOption.getD (start publisher)

/-- What is left after any list of transactions. -/
theorem reachable_runOf (publisher : Address) (txs : List (TxContext × StakingCall)) :
    (runOf publisher txs).Reachable := by
  cases hreplay : (start publisher).replay txs with
  | ok run =>
      have hrun : runOf publisher txs = run := by rw [runOf, hreplay]; rfl
      exact hrun ▸ (reachable_start publisher).replay hreplay
  | error e =>
      have hrun : runOf publisher txs = start publisher := by rw [runOf, hreplay]; rfl
      exact hrun ▸ reachable_start publisher

end StakingRun

end ZingCdn
