import ZingCdn.PeerVault

/-!
# `zing_cdn::staking`

The registry of peers and their self-stake bonds. A registered `Peer` is a shared object
that the caller of every later operation passes in; nothing looks it up through the
registry table. As in the vault module, a contract function is a computation into
`Except Abort` whose successful result carries the updated objects together with the
events and transfers of the call, and each has one lemma saying when it succeeds and with
what.
-/

namespace ZingCdn

/-- Minimum self-stake bond to register as a peer, in frost. -/
def minStake : ℕ := 1000000000

/-- A registered peer's staking position. -/
structure Peer where
  id : ID
  peerId : List UInt8
  suiAddress : Address
  bond : ℕ
  isActive : Bool
deriving DecidableEq

structure RegisterEvent where
  peer : Address
  peerId : List UInt8
deriving DecidableEq

structure StakeEvent where
  peer : Address
  amount : ℕ
deriving DecidableEq

structure UnstakeEvent where
  peer : Address
  amount : ℕ
deriving DecidableEq

structure SlashEvent where
  peer : Address
  amount : ℕ
deriving DecidableEq

structure PeerIdUpdatedEvent where
  peer : Address
  oldPeerId : List UInt8
  newPeerId : List UInt8
deriving DecidableEq

/-! ### Error codes -/

def ebAlreadyRegistered : ℕ := 0
def ebInsufficientBond : ℕ := 1
def ebInsufficientStake : ℕ := 2
def ebBelowMinStake : ℕ := 3
def ebNotPeerOwner : ℕ := 4

/-! ### Peer registration -/

/-- What an accepted `register` leaves behind: the registry table and the new peer. -/
structure Registered where
  peers : List (Address × ID)
  peer : Peer
  event : RegisterEvent
deriving DecidableEq

/-- Register the sender as a peer with at least the minimum bond. -/
def register (peers : List (Address × ID)) (peerId : List UInt8) (bond : ℕ) (ctx : TxContext) :
    Except Abort Registered := do
  let sender := ctx.sender
  require (sender ∉ peers.map Prod.fst) ebAlreadyRegistered
  require (minStake ≤ bond) ebInsufficientBond
  let peer : Peer := {
    id := ctx.freshId
    peerId
    suiAddress := sender
    bond
    isActive := true }
  if sender ∈ peers.map Prod.fst then
    throw .fieldAlreadyExists
  pure {
    peers := (sender, peer.id) :: peers
    peer
    event := { peer := sender, peerId } }

/-- Replace the libp2p peer id of one's own peer. -/
def updatePeerId (peer : Peer) (newPeerId : List UInt8) (ctx : TxContext) :
    Except Abort (Peer × PeerIdUpdatedEvent) := do
  require (ctx.sender = peer.suiAddress) ebNotPeerOwner
  let oldPeerId := peer.peerId
  let peer := { peer with peerId := newPeerId }
  pure (peer, { peer := peer.suiAddress, oldPeerId, newPeerId })

/-! ### Stake management -/

/-- Add more self-stake to an existing bond; anyone can. The event carries the value of
the bond after the coin was joined to it. -/
def addStake (peer : Peer) (coin : ℕ) : Except Abort (Peer × StakeEvent) := do
  let bond ← balanceJoin peer.bond coin
  let peer := { peer with bond }
  pure (peer, { peer := peer.suiAddress, amount := peer.bond })

/-- What an accepted `unstake` or `slash` leaves behind. -/
structure Withdrawn (Event : Type) where
  peer : Peer
  payout : CoinTransfer
  event : Event
deriving DecidableEq

/-- Unstake part of one's own bond, leaving at least the minimum. -/
def unstake (peer : Peer) (amount : ℕ) (ctx : TxContext) :
    Except Abort (Withdrawn UnstakeEvent) := do
  require (ctx.sender = peer.suiAddress) ebNotPeerOwner
  let current := peer.bond
  require (amount ≤ current) ebInsufficientStake
  let rest ← checkedSub current amount
  require (minStake ≤ rest) ebBelowMinStake
  let bond ← balanceSplit peer.bond amount
  pure {
    peer := { peer with bond }
    payout := { recipient := ctx.sender, value := amount }
    event := { peer := peer.suiAddress, amount } }

/-! ### Admin operations -/

/-- Slash a portion of a bond, which goes to the sender, the holder of the admin cap. -/
def slash (peer : Peer) (amount : ℕ) (ctx : TxContext) :
    Except Abort (Withdrawn SlashEvent) := do
  require (amount ≤ peer.bond) ebInsufficientStake
  let bond ← balanceSplit peer.bond amount
  pure {
    peer := { peer with bond }
    payout := { recipient := ctx.sender, value := amount }
    event := { peer := peer.suiAddress, amount } }

/-- Deactivate a peer. -/
def deactivate (peer : Peer) : Peer := { peer with isActive := false }

/-! ### When the calls succeed -/

/-- **What `register` does**: it makes the sender's first peer, with a sufficient bond. -/
theorem register_eq_ok_iff {peers : List (Address × ID)} {peerId : List UInt8} {bond : ℕ}
    {ctx : TxContext} {out : Registered} :
    register peers peerId bond ctx = .ok out ↔
      ctx.sender ∉ peers.map Prod.fst ∧ minStake ≤ bond ∧
        out = ⟨(ctx.sender, ctx.freshId) :: peers,
          ⟨ctx.freshId, peerId, ctx.sender, bond, true⟩, ⟨ctx.sender, peerId⟩⟩ := by
  by_cases hs : ctx.sender ∈ peers.map Prod.fst
  · have hnot : ¬ctx.sender ∉ peers.map Prod.fst := fun h => h hs
    rw [register, require_of_not hnot, bind_error]
    simp [hs]
  · by_cases hb : minStake ≤ bond
    · simp only [register, require_of hs, require_of hb, bind_ok, if_neg hs, pure_eq_ok]
      simp [hs, hb, eq_comm]
    · rw [register, require_of hs, bind_ok, require_of_not hb, bind_error]
      simp [hb]

/-- A sender in the registry cannot register, with whatever peer id and bond. -/
theorem register_of_mem {peers : List (Address × ID)} {ctx : TxContext}
    (hs : ctx.sender ∈ peers.map Prod.fst) (peerId : List UInt8) (bond : ℕ) :
    register peers peerId bond ctx = .error (.code ebAlreadyRegistered) := by
  have hnot : ¬ctx.sender ∉ peers.map Prod.fst := fun h => h hs
  rw [register, require_of_not hnot, bind_error]

/-- **What `update_peer_id` does**: the owner replaces the peer id and nothing else. -/
theorem updatePeerId_eq_ok_iff {peer : Peer} {newPeerId : List UInt8} {ctx : TxContext}
    {out : Peer × PeerIdUpdatedEvent} :
    updatePeerId peer newPeerId ctx = .ok out ↔
      ctx.sender = peer.suiAddress ∧
        out = ({ peer with peerId := newPeerId },
          ⟨peer.suiAddress, peer.peerId, newPeerId⟩) := by
  by_cases hs : ctx.sender = peer.suiAddress
  · rw [updatePeerId, require_of hs, bind_ok, pure_eq_ok]
    simp [hs, eq_comm]
  · rw [updatePeerId, require_of_not hs, bind_error]
    simp [hs]

/-- **What `add_stake` does**: it joins the coin to the bond, and reports the whole
bond. -/
theorem addStake_eq_ok_iff {peer : Peer} {coin : ℕ} {out : Peer × StakeEvent} :
    addStake peer coin = .ok out ↔
      peer.bond + coin ≤ u64Max ∧
        out = ({ peer with bond := peer.bond + coin },
          ⟨peer.suiAddress, peer.bond + coin⟩) := by
  by_cases h : peer.bond + coin ≤ u64Max
  · rw [addStake, balanceJoin_of_le h, bind_ok, pure_eq_ok]
    simp [h, eq_comm]
  · have herr : balanceJoin peer.bond coin = .error .arithmetic := if_neg h
    rw [addStake, herr, bind_error]
    simp [h]

/-- **What `unstake` does**: the owner takes out an amount that leaves the minimum. -/
theorem unstake_eq_ok_iff {peer : Peer} {amount : ℕ} {ctx : TxContext}
    {out : Withdrawn UnstakeEvent} :
    unstake peer amount ctx = .ok out ↔
      ctx.sender = peer.suiAddress ∧ amount + minStake ≤ peer.bond ∧
        out = ⟨{ peer with bond := peer.bond - amount }, ⟨ctx.sender, amount⟩,
          ⟨peer.suiAddress, amount⟩⟩ := by
  by_cases hs : ctx.sender = peer.suiAddress
  · by_cases hle : amount ≤ peer.bond
    · simp only [unstake, require_of hs, require_of hle, checkedSub_of_le hle, bind_ok]
      by_cases hmin : minStake ≤ peer.bond - amount
      · have hsum : amount + minStake ≤ peer.bond := by omega
        rw [require_of hmin, bind_ok, balanceSplit_of_le hle, bind_ok, pure_eq_ok]
        simp [hs, hsum, eq_comm]
      · have hsum : ¬amount + minStake ≤ peer.bond := by omega
        rw [require_of_not hmin, bind_error]
        simp [hsum]
    · have hsum : ¬amount + minStake ≤ peer.bond := by omega
      simp only [unstake, require_of hs, require_of_not hle, bind_ok, bind_error]
      simp [hsum]
  · rw [unstake, require_of_not hs, bind_error]
    simp [hs]

/-- **What `slash` does**: it takes any amount the bond holds. -/
theorem slash_eq_ok_iff {peer : Peer} {amount : ℕ} {ctx : TxContext}
    {out : Withdrawn SlashEvent} :
    slash peer amount ctx = .ok out ↔
      amount ≤ peer.bond ∧
        out = ⟨{ peer with bond := peer.bond - amount }, ⟨ctx.sender, amount⟩,
          ⟨peer.suiAddress, amount⟩⟩ := by
  by_cases hle : amount ≤ peer.bond
  · rw [slash, require_of hle, bind_ok, balanceSplit_of_le hle, bind_ok, pure_eq_ok]
    simp [hle, eq_comm]
  · rw [slash, require_of_not hle, bind_error]
    simp [hle]

end ZingCdn
