import ZingCdn.StakingLedger

/-!
# The Staking Registry

The registry table and the `Peer` objects are separate: a peer is shared at registration
and passed in by the caller ever after. The invariant of every run ties them together: the
registry lists exactly the peers, in the order of their registration and under distinct
addresses, and a peer whose bond nobody slashed still has the minimum.

## Main results

* `StakingRun.valid_of_reachable`: the invariant holds of every run.
* `StakingRun.staking_registry`: the registry maps an address exactly when there is exactly
  one peer of it, and to that peer; nobody registers twice; unslashed bonds and the bonds
  left by an unstake are at least the minimum; and the bonds are what was registered and
  added less what was unstaked, which goes to the peer's own address, and slashed.
-/

open Relation

namespace ZingCdn

/-! ### What a move does to the bonds -/

namespace StakingMove

/-- The bond a move registers. -/
@[simp] def registered (m : StakingMove) : ℕ :=
  match m.call with
  | .register _ bond => bond
  | _ => 0

/-- The WAL a move adds to a bond. -/
@[simp] def added (m : StakingMove) : ℕ :=
  match m.call with
  | .addStake _ coin => coin
  | _ => 0

/-- The WAL a move unstakes. -/
@[simp] def unstaked (m : StakingMove) : ℕ :=
  match m.call with
  | .unstake _ amount => amount
  | _ => 0

/-- The WAL a move slashes. -/
@[simp] def slashed (m : StakingMove) : ℕ :=
  match m.call with
  | .slash _ amount => amount
  | _ => 0

/-- What a move does to the WAL in all bonds. -/
def bondedChange (m : StakingMove) : ℤ := m.registered + m.added - m.unstaked - m.slashed

end StakingMove

namespace StakingRun

variable {run run' : StakingRun}

/-- A peer whose bond no move of the run slashed. -/
def NeverSlashed (run : StakingRun) (peer : ID) : Prop :=
  ∀ m ∈ run.moves, ∀ amount, m.call ≠ .slash peer amount

/-! ### The invariant -/

/-- The invariant of every run. -/
structure Valid (run : StakingRun) : Prop where
  ids_nodup : (run.ledger.peers.map Peer.id).Nodup
  addresses_nodup : (run.ledger.peers.map Peer.suiAddress).Nodup
  id_used : ∀ p ∈ run.ledger.peers, p.id ∈ run.ledger.ids
  registry : run.ledger.registry = run.ledger.peers.map fun p => (p.suiAddress, p.id)
  registered : ∀ m ∈ run.moves, ∀ peerId bond, m.call = .register peerId bond →
    m.ctx.sender ∈ run.ledger.peers.map Peer.suiAddress
  bond : ∀ p ∈ run.ledger.peers, run.NeverSlashed p.id → minStake ≤ p.bond

theorem valid_of_genesis (h : run.Genesis) : run.Valid := by
  obtain ⟨⟨publisher, hledger⟩, hmoves⟩ := h
  constructor <;> simp [hledger, hmoves, StakingLedger.genesis]

/-- The addresses in the registry are those of the peers. -/
theorem Valid.registry_keys (h : run.Valid) :
    run.ledger.registry.map Prod.fst = run.ledger.peers.map Peer.suiAddress := by
  rw [h.registry, List.map_map]
  rfl

theorem mem_of_peer? {l : StakingLedger} {id : ID} {p : Peer} (h : l.peer? id = some p) :
    p ∈ l.peers :=
  KeyedList.mem_of_lookup h

theorem id_of_peer? {l : StakingLedger} {id : ID} {p : Peer} (h : l.peer? id = some p) :
    p.id = id :=
  KeyedList.key_of_lookup h

/-- A run extended by a move has slashed what it had slashed before. -/
theorem NeverSlashed.of_append {l' : StakingLedger} {m : StakingMove} {peer : ID}
    (h : NeverSlashed ⟨l', run.moves ++ [m]⟩ peer) : run.NeverSlashed peer :=
  fun m' hm' => h m' (List.mem_append_left _ hm')

/-- Replacing a peer by one of the same id and address changes no list of addresses. -/
theorem map_replace_peer {β : Type} (f : Address × ID → β) {p q : Peer} {peers : List Peer}
    (hnd : (peers.map Peer.id).Nodup) (hp : p ∈ peers) (hid : p.id = q.id)
    (haddr : p.suiAddress = q.suiAddress) :
    (KeyedList.replace Peer.id q peers).map (fun p => f (p.suiAddress, p.id))
      = peers.map fun p => f (p.suiAddress, p.id) := by
  rw [KeyedList.replace, List.map_map]
  refine List.map_congr_left fun u hu => ?_
  by_cases hk : u.id = q.id
  · obtain rfl := KeyedList.eq_of_key_eq hnd hu hp (hk.trans hid.symm)
    simp [hid, haddr]
  · simp [hk]

/-- **The update rule.** A move that replaces the peer `p` by `q`, of the same id and
address, keeps the invariant when `q` keeps the minimum unless the move slashes it. -/
theorem Valid.update (h : run.Valid) {m : StakingMove} {l' : StakingLedger} {p q : Peer}
    (hp : p ∈ run.ledger.peers) (hpeers : l'.peers = (run.ledger.setPeer q).peers)
    (hregistry : l'.registry = run.ledger.registry) (hids : l'.ids = run.ledger.ids)
    (hid : p.id = q.id) (haddr : p.suiAddress = q.suiAddress)
    (hcall : ∀ peerId bond, m.call ≠ .register peerId bond)
    (hbond : (∀ amount, m.call ≠ .slash q.id amount) → minStake ≤ p.bond → minStake ≤ q.bond) :
    Valid ⟨l', run.moves ++ [m]⟩ where
  ids_nodup := by
    rw [hpeers, StakingLedger.setPeer, KeyedList.map_key_replace]
    exact h.ids_nodup
  addresses_nodup := by
    have hmap := map_replace_peer Prod.fst h.ids_nodup hp hid haddr
    rw [hpeers]
    exact hmap ▸ h.addresses_nodup
  id_used := by
    intro u hu
    rw [hpeers] at hu
    rw [hids]
    rcases KeyedList.mem_replace hu with rfl | ⟨hu', -⟩
    · exact hid ▸ h.id_used p hp
    · exact h.id_used u hu'
  registry := by
    have hmap := map_replace_peer id h.ids_nodup hp hid haddr
    rw [hregistry, hpeers, h.registry]
    exact hmap.symm
  registered := by
    intro m' hm' peerId bond hm'call
    have hmap := map_replace_peer Prod.fst h.ids_nodup hp hid haddr
    rcases List.mem_append.mp hm' with hold | hnew
    · rw [hpeers]
      exact hmap ▸ h.registered m' hold peerId bond hm'call
    · rw [List.mem_singleton.mp hnew] at hm'call
      exact absurd hm'call (hcall peerId bond)
  bond := by
    intro u hu hnever
    rw [hpeers] at hu
    rcases KeyedList.mem_replace hu with rfl | ⟨hu', -⟩
    · have hmove := hnever m (List.mem_append_right _ List.mem_cons_self)
      exact hbond hmove (h.bond p hp (hid ▸ hnever.of_append))
    · exact h.bond u hu' hnever.of_append

/-- Every step of a run keeps the invariant. -/
theorem Valid.step (h : run.Valid) (hs : Step run run') : run'.Valid := by
  cases hs with
  | tx ctx c hsub =>
      cases StakingLedger.accepted_of_submit hsub with
      | @register peerId bond fresh fits new enough =>
          rw [h.registry_keys] at new
          refine ⟨?_, List.nodup_cons.mpr ⟨new, h.addresses_nodup⟩, ?_, ?_, ?_, ?_⟩
          · refine List.nodup_cons.mpr ⟨fun hmem => ?_, h.ids_nodup⟩
            obtain ⟨p, hp, hk⟩ := List.mem_map.mp hmem
            have hk' : p.id = ctx.freshId := hk
            exact fresh (hk' ▸ h.id_used p hp)
          · intro p hp
            rcases List.mem_cons.mp hp with rfl | hp'
            · exact List.mem_cons_self
            · exact List.mem_cons_of_mem _ (h.id_used p hp')
          · rw [List.map_cons, h.registry]
          · intro m hm peerId' bond' hcall
            rcases List.mem_append.mp hm with hold | hnew
            · exact List.mem_cons_of_mem _ (h.registered m hold peerId' bond' hcall)
            · obtain rfl := List.mem_singleton.mp hnew
              exact List.mem_cons_self
          · intro p hp hnever
            rcases List.mem_cons.mp hp with rfl | hp'
            · exact enough
            · exact h.bond p hp' hnever.of_append
      | updatePeerId hp owner =>
          exact h.update (mem_of_peer? hp) rfl rfl rfl rfl rfl (by simp) fun _ hb => hb
      | addStake hp fits =>
          refine h.update (mem_of_peer? hp) rfl rfl rfl rfl rfl (by simp) fun _ hb => ?_
          exact hb.trans (Nat.le_add_right _ _)
      | unstake hp owner enough =>
          refine h.update (mem_of_peer? hp) rfl rfl rfl rfl rfl (by simp) fun _ _ => ?_
          exact Nat.le_sub_of_add_le (Nat.add_comm _ _ ▸ enough)
      | @slash peer amount p admin hp enough =>
          refine h.update (mem_of_peer? hp) rfl rfl rfl rfl rfl (by simp) fun hne _ => ?_
          exact absurd (congrArg (StakingCall.slash · amount) (id_of_peer? hp).symm) (hne amount)
      | deactivate admin hp =>
          exact h.update (mem_of_peer? hp) rfl rfl rfl rfl rfl (by simp) fun _ hb => hb
      | transferCap admin =>
          refine ⟨h.ids_nodup, h.addresses_nodup, h.id_used, h.registry, ?_, ?_⟩
          · intro m hm peerId bond hcall
            rcases List.mem_append.mp hm with hold | hnew
            · exact h.registered m hold peerId bond hcall
            · rw [List.mem_singleton.mp hnew] at hcall
              exact absurd hcall (by simp)
          · exact fun p hp hnever => h.bond p hp hnever.of_append

/-- **The invariant holds of every run.** -/
theorem valid_of_reachable (h : run.Reachable) : run.Valid :=
  Transition.Reachable.invariant Valid (fun _ => valid_of_genesis) (fun _ _ => Valid.step) h

/-! ### The WAL in all bonds -/

/-- Updating a peer changes the WAL in all bonds by exactly the change of its bond. -/
theorem bonded_update (h : run.Valid) {p q : Peer} {id : ID} {l' : StakingLedger} {n : ℤ}
    (hp : run.ledger.peer? id = some p) (hpeers : l'.peers = (run.ledger.setPeer q).peers)
    (hid : p.id = q.id) (hbond : (q.bond : ℤ) = p.bond + n) :
    (l'.bonded : ℤ) = run.ledger.bonded + n := by
  have hsum := KeyedList.sum_replace Peer.bond h.ids_nodup (mem_of_peer? hp) hid
  have hl' : l'.bonded = (run.ledger.setPeer q).bonded := by
    rw [StakingLedger.bonded, hpeers, StakingLedger.bonded]
  rw [hl']
  simp only [StakingLedger.bonded, StakingLedger.setPeer]
  omega

/-- An accepted transaction changes the WAL in all bonds by what its call says. -/
theorem bonded_of_accepted (h : run.Valid) {ctx : TxContext} {c : StakingCall}
    {l' : StakingLedger} (hacc : StakingLedger.Accepted run.ledger ctx c l') :
    (l'.bonded : ℤ) = run.ledger.bonded + StakingMove.bondedChange ⟨run.ledger, ctx, c⟩ := by
  cases hacc with
  | register fresh fits new enough =>
      simp [StakingLedger.bonded, StakingMove.bondedChange, Int.add_comm]
  | updatePeerId hp owner =>
      exact bonded_update h hp rfl rfl (by simp [StakingMove.bondedChange])
  | addStake hp fits => exact bonded_update h hp rfl rfl (by simp [StakingMove.bondedChange])
  | @unstake peer amount p hp owner enough =>
      have hle : amount ≤ p.bond := by omega
      exact bonded_update h hp rfl rfl (by simp [StakingMove.bondedChange, hle, Int.sub_eq_add_neg])
  | slash admin hp enough =>
      exact bonded_update h hp rfl rfl
        (by simp [StakingMove.bondedChange, enough, Int.sub_eq_add_neg])
  | deactivate admin hp => exact bonded_update h hp rfl rfl (by simp [StakingMove.bondedChange])
  | transferCap admin => simp [StakingLedger.bonded, StakingMove.bondedChange]

/-- The WAL in all bonds is the total of what the moves of the run did to it. -/
theorem bonded_eq_total (h : run.Reachable) :
    (run.ledger.bonded : ℤ) = EventLog.total StakingMove.bondedChange run.moves := by
  refine EventLog.eq_total StakingMove.bondedChange
    (q := fun run : StakingRun => (run.ledger.bonded : ℤ)) ?_ ?_ h
  · rintro run₀ ⟨⟨publisher, hledger⟩, hmoves⟩
    exact ⟨hmoves, by simp [hledger, StakingLedger.genesis, StakingLedger.bonded]⟩
  · intro run₁ run₂ hreach hs
    cases hs with
    | tx ctx c hsub =>
        have hacc := bonded_of_accepted (valid_of_reachable hreach)
          (StakingLedger.accepted_of_submit hsub)
        exact ⟨_, rfl, by rw [hacc, EventLog.total_cons, EventLog.total_nil, Int.add_zero]⟩

/-! ### What the invariant guarantees -/

/-- The registry maps the address of every peer to that peer. -/
theorem findPeer_of_mem (h : run.Valid) {p : Peer} (hp : p ∈ run.ledger.peers) :
    run.ledger.findPeer p.suiAddress = some p.id := by
  have hnd : (run.ledger.registry.map Prod.fst).Nodup := by
    rw [h.registry_keys]
    exact h.addresses_nodup
  have hmem : (p.suiAddress, p.id) ∈ run.ledger.registry := by
    rw [h.registry]
    exact List.mem_map_of_mem hp
  rw [StakingLedger.findPeer, KeyedList.lookup_of_mem hnd hmem]
  rfl

/-- An address the registry maps is that of a peer. -/
theorem exists_peer_of_findPeer (h : run.Valid) {a : Address} {id : ID}
    (hfind : run.ledger.findPeer a = some id) :
    ∃ p ∈ run.ledger.peers, p.suiAddress = a ∧ p.id = id := by
  obtain ⟨entry, hentry, hid⟩ := Option.map_eq_some_iff.mp hfind
  have hmem := KeyedList.mem_of_lookup hentry
  have hkey : entry.1 = a := KeyedList.key_of_lookup hentry
  rw [h.registry] at hmem
  obtain ⟨p, hp, rfl⟩ := List.mem_map.mp hmem
  exact ⟨p, hp, hkey, hid⟩

/-- **The staking registry.** In every run: the registry maps an address exactly when there
is exactly one peer of that address, and maps it to that peer; a sender who registered once
cannot register again; a peer that was never slashed has the minimum bond; every accepted
unstake leaves the minimum and sends the amount to the peer's own address; and the WAL in
all bonds is what was registered and added less what was unstaked and slashed. -/
theorem staking_registry {run : StakingRun} (h : run.Reachable) :
    (∀ a, (∃ id, run.ledger.findPeer a = some id) ↔
        ∃! p, p ∈ run.ledger.peers ∧ p.suiAddress = a) ∧
      (run.ledger.peers.map Peer.suiAddress).Nodup ∧
      (∀ p ∈ run.ledger.peers, run.ledger.findPeer p.suiAddress = some p.id) ∧
      (∀ m ∈ run.moves, ∀ peerId bond, m.call = .register peerId bond →
        ∀ ctx, ctx.sender = m.ctx.sender → ∀ peerId' bond',
          register run.ledger.registry peerId' bond' ctx =
            .error (.code ebAlreadyRegistered)) ∧
      (∀ p ∈ run.ledger.peers, run.NeverSlashed p.id → minStake ≤ p.bond) ∧
      (∀ ctx peer amount l', run.ledger.submit ctx (.unstake peer amount) = .ok l' →
        ∃ p ∈ run.ledger.peers, ∃ p' ∈ l'.peers, p.id = peer ∧ p'.id = peer ∧
          minStake ≤ p'.bond ∧
          l'.transfers = run.ledger.transfers ++ [⟨p.suiAddress, amount⟩]) ∧
      (run.ledger.bonded : ℤ) =
        EventLog.total (fun m => m.registered) run.moves
          + EventLog.total (fun m => m.added) run.moves
          - EventLog.total (fun m => m.unstaked) run.moves
          - EventLog.total (fun m => m.slashed) run.moves := by
  have hvalid := valid_of_reachable h
  refine ⟨fun a => ⟨?_, ?_⟩, hvalid.addresses_nodup, fun p hp => findPeer_of_mem hvalid hp, ?_,
    hvalid.bond, ?_, ?_⟩
  · rintro ⟨id, hfind⟩
    obtain ⟨p, hp, haddr, -⟩ := exists_peer_of_findPeer hvalid hfind
    refine ⟨p, ⟨hp, haddr⟩, ?_⟩
    rintro q ⟨hq, hqaddr⟩
    exact KeyedList.eq_of_key_eq hvalid.addresses_nodup hq hp (hqaddr.trans haddr.symm)
  · rintro ⟨p, ⟨hp, rfl⟩, -⟩
    exact ⟨p.id, findPeer_of_mem hvalid hp⟩
  · intro m hm peerId bond hcall ctx hsender peerId' bond'
    refine register_of_mem ?_ peerId' bond'
    rw [hsender, hvalid.registry_keys]
    exact hvalid.registered m hm peerId bond hcall
  · intro ctx peer amount l' hsub
    cases StakingLedger.accepted_of_submit hsub with
    | @unstake _ _ p hp owner enough =>
        have hid : p.id = peer := id_of_peer? hp
        refine ⟨p, mem_of_peer? hp, { p with bond := p.bond - amount },
          KeyedList.mem_replace_self (mem_of_peer? hp) rfl, hid, hid, ?_, rfl⟩
        exact Nat.le_sub_of_add_le (Nat.add_comm _ _ ▸ enough)
  · rw [bonded_eq_total h, ← EventLog.total_add, ← EventLog.total_sub, ← EventLog.total_sub]
    rfl

/-- A peer registers with the minimum bond and is slashed by one frost. -/
def slashedRun : StakingRun :=
  runOf (sampleAddress 9)
    [(⟨sampleAddress 1, sampleId 1⟩, .register [1] 1000000000),
      (⟨sampleAddress 9, sampleId 2⟩, .slash (sampleId 1) 1)]

theorem staking_registry_slashedRun :
    register slashedRun.ledger.registry [2] 1000000000 ⟨sampleAddress 1, sampleId 3⟩ =
      .error (.code ebAlreadyRegistered) :=
  (staking_registry (reachable_runOf _ _)).2.2.2.1
    ⟨StakingLedger.genesis (sampleAddress 9), ⟨sampleAddress 1, sampleId 1⟩,
      .register [1] 1000000000⟩ (by decide +kernel) [1] 1000000000 rfl _ rfl [2] 1000000000

end StakingRun

end ZingCdn
