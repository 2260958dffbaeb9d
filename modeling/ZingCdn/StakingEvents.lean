import ZingCdn.StakingRegistry

/-!
# Replaying the Staking Events

An indexer that adds up the events of a peer expects its bond. The unstake and slash
events carry the amounts taken out, but a stake event carries the value of the bond after
the coin was joined to it, so the replay exceeds the bond by what was in it before: exactly
the excess of the run's `add_stake` moves (`StakingRun.Audited`). The replay is right
exactly when every `add_stake` of the run met an empty bond.

## Main results

* `StakingRun.staking_events_replay_iff`: in every run the events of a peer replay to its
  bond if and only if every coin added to the bond was added while the bond was empty.
* `StakingRun.not_staking_events_replay`: one top-up is enough to break the replay.
-/

open Relation

namespace ZingCdn

/-! ### Reading the log -/

namespace StakingEvent

/-- The amount of a stake event of the peer `a`; zero for every other event. -/
@[simp] def staked (a : Address) : StakingEvent → ℤ
  | .stake e => if e.peer = a then e.amount else 0
  | _ => 0

/-- The amount of an unstake event of the peer `a`; zero for every other event. -/
@[simp] def unstaked (a : Address) : StakingEvent → ℤ
  | .unstake e => if e.peer = a then e.amount else 0
  | _ => 0

/-- The amount of a slash event of the peer `a`; zero for every other event. -/
@[simp] def slashed (a : Address) : StakingEvent → ℤ
  | .slash e => if e.peer = a then e.amount else 0
  | _ => 0

/-- What an event says happened to the bond of the peer `a`. -/
@[simp] def bondChange (a : Address) (e : StakingEvent) : ℤ :=
  e.staked a - e.unstaked a - e.slashed a

/-- The peer an event is about. -/
@[simp] def about : StakingEvent → Address
  | .register e => e.peer
  | .stake e => e.peer
  | .unstake e => e.peer
  | .slash e => e.peer
  | .peerIdUpdated e => e.peer

/-- Events about other peers say nothing. -/
theorem total_bondChange_of_ne {a : Address} {es : List StakingEvent}
    (h : ∀ e ∈ es, e.about ≠ a) : EventLog.total (bondChange a) es = 0 := by
  induction es with
  | nil => rfl
  | cons e es ih =>
      have hone : e.bondChange a = 0 := by
        have := h e List.mem_cons_self
        cases e <;> simp_all
      rw [EventLog.total_cons, hone, Int.zero_add]
      exact ih fun e' he' => h e' (List.mem_cons_of_mem _ he')

end StakingEvent

/-- What the bond of a peer already held when a move added a coin to it; zero for every
other move. -/
@[simp] def StakingMove.excess (peer : ID) (m : StakingMove) : ℤ :=
  match m.call with
  | .addStake id _ => if id = peer then ((m.before.peer? peer).elim 0 Peer.bond : ℕ) else 0
  | _ => 0

namespace StakingRun

variable {run run' : StakingRun}

/-- The bond of the peer `a` as an indexer replays it from the events: the bond it
registered with, plus what stake events report, less what unstake and slash events
report. -/
def replayed (run : StakingRun) (a : Address) (registered : ℕ) : ℤ :=
  registered + EventLog.total (StakingEvent.staked a) run.ledger.events
    - EventLog.total (StakingEvent.unstaked a) run.ledger.events
    - EventLog.total (StakingEvent.slashed a) run.ledger.events

/-- The replay as one total. -/
theorem replayed_eq (run : StakingRun) (a : Address) (registered : ℕ) :
    run.replayed a registered =
      registered + EventLog.total (StakingEvent.bondChange a) run.ledger.events := by
  have hsplit : EventLog.total (StakingEvent.bondChange a) run.ledger.events
      = EventLog.total (StakingEvent.staked a) run.ledger.events
        - EventLog.total (StakingEvent.unstaked a) run.ledger.events
        - EventLog.total (StakingEvent.slashed a) run.ledger.events := by
    rw [← EventLog.total_sub, ← EventLog.total_sub]
    rfl
  rw [hsplit, replayed]
  omega

/-! ### The audit of a run -/

/-- The audit of a run: events and top-ups are about registered peers only, and the bond of
a peer is its bond at registration, plus the changes its events report, less the excess of
its top-ups. -/
structure Audited (run : StakingRun) : Prop extends run.Valid where
  events_known : ∀ e ∈ run.ledger.events, e.about ∈ run.ledger.peers.map Peer.suiAddress
  moves_known : ∀ m ∈ run.moves, ∀ peer coin, m.call = .addStake peer coin →
    peer ∈ run.ledger.ids
  balance : ∀ p ∈ run.ledger.peers, ∀ m ∈ run.moves, ∀ peerId bond,
    m.call = .register peerId bond → m.ctx.sender = p.suiAddress →
      (p.bond : ℤ) = bond
        + EventLog.total (StakingEvent.bondChange p.suiAddress) run.ledger.events
        - EventLog.total (StakingMove.excess p.id) run.moves

theorem audited_of_genesis (h : run.Genesis) : run.Audited := by
  refine ⟨valid_of_genesis h, ?_, ?_, ?_⟩ <;>
  · obtain ⟨⟨publisher, hledger⟩, hmoves⟩ := h
    simp [hledger, hmoves, StakingLedger.genesis]

/-- The peers' addresses after one was updated. -/
theorem addresses_setPeer (h : run.Valid) {p q : Peer} (hp : p ∈ run.ledger.peers)
    (hid : p.id = q.id) (haddr : p.suiAddress = q.suiAddress) :
    (run.ledger.setPeer q).peers.map Peer.suiAddress
      = run.ledger.peers.map Peer.suiAddress :=
  map_replace_peer Prod.fst h.ids_nodup hp hid haddr

/-- **The audit rule.** A move that replaces the peer `p` by `q` and emits events about it
is audited when the change of the bond is what the events say less the excess. -/
theorem Audited.update (h : run.Audited) {m : StakingMove} {l' : StakingLedger} {p q : Peer}
    {es : List StakingEvent} (hvalid : Valid ⟨l', run.moves ++ [m]⟩) (hp : p ∈ run.ledger.peers)
    (hpeers : l'.peers = (run.ledger.setPeer q).peers)
    (hevents : l'.events = run.ledger.events ++ es) (hids : l'.ids = run.ledger.ids)
    (hid : p.id = q.id) (haddr : p.suiAddress = q.suiAddress)
    (habout : ∀ e ∈ es, e.about = q.suiAddress)
    (hcall : ∀ peerId bond, m.call ≠ .register peerId bond)
    (hmove : ∀ peer coin, m.call = .addStake peer coin → peer = q.id)
    (hbond : (q.bond : ℤ) = p.bond
      + (EventLog.total (StakingEvent.bondChange q.suiAddress) es - m.excess q.id)) :
    Audited ⟨l', run.moves ++ [m]⟩ where
  toValid := hvalid
  events_known := by
    intro e' he'
    rw [hevents] at he'
    rw [hpeers, addresses_setPeer h.toValid hp hid haddr]
    rcases List.mem_append.mp he' with hold | hnew
    · exact h.events_known e' hold
    · rw [habout e' hnew, ← haddr]
      exact List.mem_map_of_mem hp
  moves_known := by
    intro m' hm' peer coin hm'call
    rw [hids]
    rcases List.mem_append.mp hm' with hold | hnew
    · exact h.moves_known m' hold peer coin hm'call
    · rw [List.mem_singleton.mp hnew] at hm'call
      rw [hmove peer coin hm'call, ← hid]
      exact h.id_used p hp
  balance := by
    intro u hu m' hm' peerId bond hm'call hsender
    have hold : m' ∈ run.moves := by
      rcases List.mem_append.mp hm' with hold | hnew
      · exact hold
      · rw [List.mem_singleton.mp hnew] at hm'call
        exact absurd hm'call (hcall peerId bond)
    rw [hpeers] at hu
    rw [hevents, EventLog.total_append, EventLog.total_append, EventLog.total_cons,
      EventLog.total_nil]
    rcases KeyedList.mem_replace hu with rfl | ⟨hu', hne⟩
    · have := h.balance p hp m' hold peerId bond hm'call (hsender.trans haddr.symm)
      rw [haddr, hid] at this
      omega
    · have hother : u.suiAddress ≠ q.suiAddress := fun hk =>
        hne (hid ▸ congrArg Peer.id
          (KeyedList.eq_of_key_eq h.addresses_nodup hu' hp (hk.trans haddr.symm)))
      have hsilent := StakingEvent.total_bondChange_of_ne fun e he =>
        (habout e he).trans_ne hother.symm
      have hnone : m.excess u.id = 0 := by
        rw [StakingMove.excess]
        split
        case h_1 peer coin hm => rw [if_neg (hmove peer coin hm ▸ hne.symm)]
        case h_2 => rfl
      have := h.balance u hu' m' hold peerId bond hm'call hsender
      omega

/-- Top-ups of other peers leave no excess. -/
theorem total_excess_of_ne {id : ID} {moves : List StakingMove}
    (h : ∀ m ∈ moves, ∀ peer coin, m.call = .addStake peer coin → peer ≠ id) :
    EventLog.total (StakingMove.excess id) moves = 0 := by
  induction moves with
  | nil => rfl
  | cons m moves ih =>
      have hone : m.excess id = 0 := by
        rw [StakingMove.excess]
        split
        case h_1 peer coin hm => rw [if_neg (h m List.mem_cons_self peer coin hm)]
        case h_2 => rfl
      rw [EventLog.total_cons, hone, Int.zero_add]
      exact ih fun m' hm' => h m' (List.mem_cons_of_mem _ hm')

/-- A registration starts a new account: nothing was said or added about it before. -/
theorem Audited.register (h : run.Audited) {ctx : TxContext} {peerId : List UInt8} {bond : ℕ}
    {l' : StakingLedger} (fresh : ctx.freshId ∉ run.ledger.ids)
    (new : ctx.sender ∉ run.ledger.registry.map Prod.fst)
    (hvalid : Valid ⟨l', run.moves ++ [⟨run.ledger, ctx, .register peerId bond⟩]⟩)
    (hpeers : l'.peers = ⟨ctx.freshId, peerId, ctx.sender, bond, true⟩ :: run.ledger.peers)
    (hids : l'.ids = ctx.freshId :: run.ledger.ids)
    (hevents : l'.events = run.ledger.events ++ [.register ⟨ctx.sender, peerId⟩]) :
    Audited ⟨l', run.moves ++ [⟨run.ledger, ctx, .register peerId bond⟩]⟩ where
  toValid := hvalid
  events_known := by
    intro e he
    rw [hevents] at he
    rw [hpeers]
    rcases List.mem_append.mp he with hold | hnew
    · exact List.mem_cons_of_mem _ (h.events_known e hold)
    · rw [List.mem_singleton.mp hnew]
      exact List.mem_cons_self
  moves_known := by
    intro m hm peer coin hcall
    rw [hids]
    rcases List.mem_append.mp hm with hold | hnew
    · exact List.mem_cons_of_mem _ (h.moves_known m hold peer coin hcall)
    · rw [List.mem_singleton.mp hnew] at hcall
      exact absurd hcall (by simp)
  balance := by
    rw [h.registry_keys] at new
    intro u hu m hm peerId' bond' hcall hsender
    rw [hpeers] at hu
    rw [hevents, EventLog.total_append, EventLog.total_append, EventLog.total_cons,
      EventLog.total_nil, EventLog.total_cons, EventLog.total_nil]
    simp only [StakingEvent.bondChange, StakingEvent.staked, StakingEvent.unstaked,
      StakingEvent.slashed, StakingMove.excess, sub_zero, add_zero]
    rcases List.mem_cons.mp hu with rfl | hu'
    · rcases List.mem_append.mp hm with hold | hnew
      · have hsender' : m.ctx.sender = ctx.sender := hsender
        exact absurd (hsender' ▸ h.registered m hold peerId' bond' hcall) new
      · obtain ⟨rfl, rfl⟩ : peerId = peerId' ∧ bond = bond' := by
          rw [List.mem_singleton.mp hnew] at hcall
          simpa using hcall
        have hsilent := StakingEvent.total_bondChange_of_ne (a := ctx.sender)
          fun e he hk => new (hk ▸ h.events_known e he)
        have hnone : EventLog.total (StakingMove.excess ctx.freshId) run.moves = 0 :=
          total_excess_of_ne fun m' hm' peer coin hm'call hk =>
            fresh (hk ▸ h.moves_known m' hm' peer coin hm'call)
        simp only [hsilent, hnone, add_zero, sub_zero]
    · rcases List.mem_append.mp hm with hold | hnew
      · exact h.balance u hu' m hold peerId' bond' hcall hsender
      · rw [List.mem_singleton.mp hnew] at hsender
        exact absurd (hsender ▸ List.mem_map_of_mem hu') new

/-- Every step of a run keeps the audit. -/
theorem Audited.step (h : run.Audited) (hs : Step run run') : run'.Audited := by
  have hvalid := h.toValid.step hs
  cases hs with
  | tx ctx c hsub =>
      cases StakingLedger.accepted_of_submit hsub with
      | register fresh fits new enough => exact h.register fresh new hvalid rfl rfl rfl
      | updatePeerId hp owner =>
          exact h.update hvalid (mem_of_peer? hp) rfl rfl rfl rfl rfl (by simp) (by simp)
            (by simp) (by simp)
      | @addStake peer coin p hp fits =>
          have hid : p.id = peer := id_of_peer? hp
          refine h.update hvalid (mem_of_peer? hp) rfl rfl rfl rfl rfl (by simp) (by simp) ?_ ?_
          · intro peer' coin' hcall
            obtain ⟨rfl, -⟩ : peer = peer' ∧ coin = coin' := by simpa using hcall
            exact hid.symm
          · subst hid
            simp [hp]
      | @unstake peer amount p hp owner enough =>
          have hle : amount ≤ p.bond := by omega
          refine h.update hvalid (mem_of_peer? hp) rfl rfl rfl rfl rfl (by simp) (by simp)
            (by simp) ?_
          simp [hle, sub_eq_add_neg]
      | slash admin hp enough =>
          refine h.update hvalid (mem_of_peer? hp) rfl rfl rfl rfl rfl (by simp) (by simp)
            (by simp) ?_
          simp [enough, sub_eq_add_neg]
      | deactivate admin hp =>
          exact h.update hvalid (mem_of_peer? hp) rfl (List.append_nil _).symm rfl rfl
            rfl (by simp) (by simp) (by simp) (by simp)
      | @transferCap recipient admin =>
          refine ⟨hvalid, h.events_known, ?_, ?_⟩
          · intro m hm peer coin hcall
            rcases List.mem_append.mp hm with hold | hnew
            · exact h.moves_known m hold peer coin hcall
            · rw [List.mem_singleton.mp hnew] at hcall
              exact absurd hcall (by simp)
          · intro p hp m hm peerId bond hcall hsender
            rcases List.mem_append.mp hm with hold | hnew
            · have := h.balance p hp m hold peerId bond hcall hsender
              rw [EventLog.total_append, EventLog.total_cons, EventLog.total_nil]
              simpa using this
            · rw [List.mem_singleton.mp hnew] at hcall
              exact absurd hcall (by simp)

/-- **Every run is audited.** -/
theorem audited_of_reachable (h : run.Reachable) : run.Audited :=
  Transition.Reachable.invariant Audited (fun _ => audited_of_genesis) (fun _ _ => Audited.step) h

/-! ### When the replay is right -/

/-- The total excess of the top-ups of a peer is zero exactly when each of them met an
empty bond. -/
theorem total_excess_eq_zero_iff (peer : ID) (moves : List StakingMove) :
    EventLog.total (StakingMove.excess peer) moves = 0 ↔
      ∀ m ∈ moves, m.excess peer = 0 := by
  have hnonneg : ∀ m : StakingMove, 0 ≤ m.excess peer := by
    intro m
    rw [StakingMove.excess]
    split
    · split <;> omega
    · exact le_rfl
  have htotal : ∀ moves, 0 ≤ EventLog.total (StakingMove.excess peer) moves := by
    intro moves
    induction moves with
    | nil => exact le_rfl
    | cons m moves ih =>
        have := hnonneg m
        rw [EventLog.total_cons]
        omega
  induction moves with
  | nil => simp
  | cons m moves ih =>
      have hfirst := hnonneg m
      have hrest := htotal moves
      rw [EventLog.total_cons, List.forall_mem_cons]
      constructor
      · intro hsum
        exact ⟨by omega, ih.mp (by omega)⟩
      · rintro ⟨hm, hmoves⟩
        have := ih.mpr hmoves
        omega

/-- A top-up without excess is one that met an empty bond. -/
theorem excess_eq_zero_iff (peer : ID) (m : StakingMove) :
    m.excess peer = 0 ↔
      ∀ coin, m.call = .addStake peer coin →
        ∀ p, m.before.peer? peer = some p → p.bond = 0 := by
  rw [StakingMove.excess]
  split
  case h_1 id coin hm =>
    by_cases hid : id = peer
    · subst hid
      cases hp : m.before.peer? id with
      | none => simp
      | some p => simp [hm]
    · have hne : ∀ coin', m.call ≠ .addStake peer coin' := by
        intro coin' hcall
        rw [hm] at hcall
        exact hid (StakingCall.addStake.inj hcall).1
      simp [hid, hne]
  case h_2 hm =>
    exact ⟨fun _ coin hcall => absurd hcall (hm peer coin), fun _ => rfl⟩

/-- **Staking events replay to the bond** of a peer if and only if, at every `add_stake` of
the run on the peer, its bond was empty. -/
theorem staking_events_replay_iff {run : StakingRun} (h : run.Reachable) {p : Peer}
    (hp : p ∈ run.ledger.peers) {m : StakingMove} (hm : m ∈ run.moves) {peerId : List UInt8}
    {bond : ℕ} (hcall : m.call = .register peerId bond) (hsender : m.ctx.sender = p.suiAddress) :
    (p.bond : ℤ) = run.replayed p.suiAddress bond ↔
      ∀ m ∈ run.moves, ∀ coin, m.call = .addStake p.id coin →
        ∀ q, m.before.peer? p.id = some q → q.bond = 0 := by
  have hbalance := (audited_of_reachable h).balance p hp m hm peerId bond hcall hsender
  have hexcess := total_excess_eq_zero_iff p.id run.moves
  simp only [excess_eq_zero_iff] at hexcess
  rw [replayed_eq, ← hexcess]
  omega

/-- A peer registers with the minimum bond and adds five frost. -/
def toppedUpRun : StakingRun :=
  runOf (sampleAddress 9)
    [(⟨sampleAddress 1, sampleId 1⟩, .register [1] 1000000000),
      (⟨sampleAddress 1, sampleId 2⟩, .addStake (sampleId 1) 5)]

/-- **The replay drifts**: after registering with the minimum bond and adding five frost,
the events replay to twice the minimum and five. -/
theorem not_staking_events_replay :
    ¬∀ run : StakingRun, run.Reachable → ∀ p ∈ run.ledger.peers, ∀ m ∈ run.moves,
      ∀ peerId bond, m.call = .register peerId bond → m.ctx.sender = p.suiAddress →
        (p.bond : ℤ) = run.replayed p.suiAddress bond := by
  intro hall
  have hrun := hall toppedUpRun (reachable_runOf _ _)
    ⟨sampleId 1, [1], sampleAddress 1, 1000000005, true⟩ (by decide +kernel)
    ⟨StakingLedger.genesis (sampleAddress 9), ⟨sampleAddress 1, sampleId 1⟩,
      .register [1] 1000000000⟩ (by decide +kernel) [1] 1000000000 rfl rfl
  have hreplayed : toppedUpRun.replayed (sampleAddress 1) 1000000000 = 2000000005 := by
    decide +kernel
  rw [hreplayed] at hrun
  exact absurd hrun (by decide)

theorem staking_events_replay_toppedUpRun :
    ((1000000005 : ℕ) : ℤ) = toppedUpRun.replayed (sampleAddress 1) 1000000000 ↔
      ∀ m ∈ toppedUpRun.moves, ∀ coin, m.call = .addStake (sampleId 1) coin →
        ∀ q, m.before.peer? (sampleId 1) = some q → q.bond = 0 :=
  staking_events_replay_iff (reachable_runOf _ _)
    (p := ⟨sampleId 1, [1], sampleAddress 1, 1000000005, true⟩) (by decide +kernel)
    (m := ⟨StakingLedger.genesis (sampleAddress 9), ⟨sampleAddress 1, sampleId 1⟩,
      .register [1] 1000000000⟩) (by decide +kernel) rfl rfl

end StakingRun

end ZingCdn
