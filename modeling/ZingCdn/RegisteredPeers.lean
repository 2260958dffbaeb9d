import ZingCdn.Library.Latest
import ZingCdn.Registration

/-!
# The Peer Id in the Registry

What the registration of a node does to the chain, over runs in which anybody registers, adds
and takes back stake, and the admin slashes and deactivates.

A node writes its peer id with three commands: it registers or updates at its start, and the API
has a command for each. All of them name the peer id that the key of the wallet gives, so the
same wallet always names the same one.

## Main results

* `StakingRun.names_eq_some_iff`: the registry has for each address the peer id that the address
  named last.
* `registration_settled`: a registration lasts, and is not repeated.
-/

open Relation

namespace ZingCdn

variable {PeerId : Type}

/-! ### Who names a peer id -/

/-- The peer id that a transaction names, with its sender. -/
def StakingMove.named (m : StakingMove) : Option (Address × Bytes) :=
  match m.call with
  | .register peerId _ => some (m.ctx.sender, peerId)
  | .updatePeerId _ newPeerId => some (m.ctx.sender, newPeerId)
  | _ => none

theorem StakingMove.named_register {l : StakingLedger} {ctx : TxContext} {peerId : Bytes}
    {bond : ℕ} : named ⟨l, ctx, .register peerId bond⟩ = some (ctx.sender, peerId) := rfl

theorem StakingMove.named_updatePeerId {l : StakingLedger} {ctx : TxContext} {peer : ID}
    {newPeerId : Bytes} :
    named ⟨l, ctx, .updatePeerId peer newPeerId⟩ = some (ctx.sender, newPeerId) := rfl

namespace StakingRun

variable {run run' : StakingRun} {a : Address} {peerId : Bytes}

/-- The peer id that each address named last. -/
def names (run : StakingRun) : Address → Option Bytes := Latest.latest StakingMove.named run.moves

/-- What a wallet names after one move more. -/
theorem names_snoc (l' : StakingLedger) (m : StakingMove) :
    names ⟨l', run.moves ++ [m]⟩ = Latest.learn StakingMove.named run.names m :=
  Latest.latest_snoc _ run.moves m

/-- The peers as their owners named them, each active until it is deactivated. -/
structure Named (run : StakingRun) : Prop where
  names : ∀ a peerId, run.names a = some peerId ↔
    ∃ p ∈ run.ledger.peers, p.suiAddress = a ∧ p.peerId = peerId
  active : ∀ p ∈ run.ledger.peers,
    p.isActive = true ↔ ∀ m ∈ run.moves, m.call ≠ .deactivate p.id
  deactivated : ∀ m ∈ run.moves, ∀ id, m.call = .deactivate id → id ∈ run.ledger.ids

/-- Nobody is named at first. -/
theorem named_of_genesis (h : run.Genesis) : run.Named := by
  obtain ⟨⟨publisher, hledger⟩, hmoves⟩ := h
  constructor <;> simp [hledger, hmoves, StakingLedger.genesis, StakingRun.names]

/-- Who is registered after an update. -/
theorem mem_setPeer_iff {l : StakingLedger} {p q u : Peer} (hp : p ∈ l.peers) (hid : p.id = q.id) :
    u ∈ (l.setPeer q).peers ↔ u = q ∨ (u ∈ l.peers ∧ u.id ≠ q.id) := by
  refine ⟨KeyedList.mem_replace, ?_⟩
  rintro (rfl | ⟨hu, hne⟩)
  · exact KeyedList.mem_replace_self hp hid
  · exact KeyedList.mem_replace_of_ne hu hne

/-- A peer is replaced by one of the same owner. -/
theorem Named.update (h : run.Named) (hvalid : run.Valid) {m : StakingMove} {l' : StakingLedger}
    {p q : Peer} (hp : p ∈ run.ledger.peers) (hpeers : l'.peers = (run.ledger.setPeer q).peers)
    (hids : l'.ids = run.ledger.ids) (hid : p.id = q.id) (haddr : p.suiAddress = q.suiAddress)
    (hnames : Latest.learn StakingMove.named run.names m
      = Function.update run.names q.suiAddress (some q.peerId))
    (hactive : q.isActive = true ↔ p.isActive = true ∧ m.call ≠ .deactivate q.id)
    (hother : ∀ id, m.call = .deactivate id → id = q.id) :
    Named ⟨l', run.moves ++ [m]⟩ where
  names a peerId := by
    rw [names_snoc, hnames, hpeers]
    simp only [mem_setPeer_iff hp hid]
    by_cases ha : a = q.suiAddress
    · subst ha
      rw [Function.update_self, Option.some.injEq]
      constructor
      · rintro rfl
        exact ⟨q, .inl rfl, rfl, rfl⟩
      · rintro ⟨u, rfl | ⟨hu, hne⟩, hua, hupeer⟩
        · exact hupeer
        · obtain rfl := KeyedList.eq_of_key_eq hvalid.addresses_nodup hu hp (hua.trans haddr.symm)
          exact absurd hid hne
    · rw [Function.update_of_ne ha, h.names]
      constructor
      · rintro ⟨u, hu, hua, hupeer⟩
        refine ⟨u, .inr ⟨hu, fun huid => ?_⟩, hua, hupeer⟩
        obtain rfl := KeyedList.eq_of_key_eq hvalid.ids_nodup hu hp (huid.trans hid.symm)
        exact ha (hua.symm.trans haddr)
      · rintro ⟨u, rfl | ⟨hu, -⟩, hua, hupeer⟩
        · exact absurd hua.symm ha
        · exact ⟨u, hu, hua, hupeer⟩
  active u hu := by
    simp only [List.forall_mem_append, List.forall_mem_singleton]
    rw [hpeers, mem_setPeer_iff hp hid] at hu
    rcases hu with rfl | ⟨hu, hne⟩
    · rw [hactive, h.active p hp, hid]
    · rw [h.active u hu]
      exact ⟨fun hall => ⟨hall, fun hcall => hne (hother _ hcall)⟩, fun hall => hall.1⟩
  deactivated m' hm' id hcall := by
    rw [hids]
    rcases List.mem_append.mp hm' with hold | hnew
    · exact h.deactivated m' hold id hcall
    · rw [List.mem_singleton.mp hnew] at hcall
      rw [hother id hcall, ← hid]
      exact hvalid.id_used p hp

/-- A transaction that names no peer id leaves what its peer is named. -/
theorem Named.learn_of_none (h : run.Named) {m : StakingMove} (hm : m.named = none) {p q : Peer}
    (hp : p ∈ run.ledger.peers) (haddr : p.suiAddress = q.suiAddress)
    (hpeer : p.peerId = q.peerId) : Latest.learn StakingMove.named run.names m
      = Function.update run.names q.suiAddress (some q.peerId) := by
  have hnamed : run.names q.suiAddress = some q.peerId := (h.names ..).mpr ⟨p, hp, haddr, hpeer⟩
  rw [Latest.learn_of_none hm, ← hnamed, Function.update_eq_self]

/-- Every step keeps the names. -/
theorem Named.step (h : run.Named) (hvalid : run.Valid) (hs : Step run run') : run'.Named := by
  cases hs with
  | tx ctx c hsub =>
      cases StakingLedger.accepted_of_submit hsub with
      | @register peerId bond fresh fits new enough =>
          rw [hvalid.registry_keys] at new
          refine ⟨fun a peerId' => ?_, fun p hp => ?_, fun m hm id hcall => ?_⟩
          · rw [names_snoc, Latest.learn_of_some StakingMove.named_register]
            simp only [List.exists_mem_cons_iff]
            by_cases ha : a = ctx.sender
            · subst ha
              have hnone : ¬∃ p ∈ run.ledger.peers, p.suiAddress = ctx.sender ∧ p.peerId = peerId' :=
                fun ⟨p, hp, haddr, _⟩ => new (haddr ▸ List.mem_map_of_mem hp)
              simp [hnone]
            · rw [Function.update_of_ne ha, h.names]
              simp [Ne.symm ha]
          · simp only [List.forall_mem_append, List.forall_mem_singleton]
            rcases List.mem_cons.mp hp with rfl | hp
            · have hnone : ∀ m ∈ run.moves, m.call ≠ .deactivate ctx.freshId :=
                fun m hm hcall => fresh (h.deactivated m hm _ hcall)
              simpa using hnone
            · rw [h.active p hp]
              simp
          · rcases List.mem_append.mp hm with hold | hnew
            · exact List.mem_cons_of_mem _ (h.deactivated m hold id hcall)
            · rw [List.mem_singleton.mp hnew] at hcall
              cases hcall
      | @updatePeerId peer newPeerId p hp owner =>
          refine h.update hvalid (mem_of_peer? hp) rfl rfl rfl rfl ?_ (by simp) (by simp)
          rw [Latest.learn_of_some StakingMove.named_updatePeerId, owner]
      | addStake hp fits =>
          exact h.update hvalid (mem_of_peer? hp) rfl rfl rfl rfl
            (h.learn_of_none rfl (mem_of_peer? hp) rfl rfl) (by simp) (by simp)
      | unstake hp owner enough =>
          exact h.update hvalid (mem_of_peer? hp) rfl rfl rfl rfl
            (h.learn_of_none rfl (mem_of_peer? hp) rfl rfl) (by simp) (by simp)
      | slash admin hp enough =>
          exact h.update hvalid (mem_of_peer? hp) rfl rfl rfl rfl
            (h.learn_of_none rfl (mem_of_peer? hp) rfl rfl) (by simp) (by simp)
      | deactivate admin hp =>
          refine h.update hvalid (mem_of_peer? hp) rfl rfl rfl rfl
            (h.learn_of_none rfl (mem_of_peer? hp) rfl rfl) ?_ ?_
          · simp [id_of_peer? hp]
          · rintro id hcall
            exact (StakingCall.deactivate.inj hcall).symm.trans (id_of_peer? hp).symm
      | transferCap admin =>
          refine ⟨fun a peerId => ?_, fun p hp => ?_, fun m hm id hcall => ?_⟩
          · rw [names_snoc, Latest.learn_of_none rfl]
            exact h.names a peerId
          · simp only [List.forall_mem_append, List.forall_mem_singleton]
            simpa using h.active p hp
          · rcases List.mem_append.mp hm with hold | hnew
            · exact h.deactivated m hold id hcall
            · rw [List.mem_singleton.mp hnew] at hcall
              cases hcall

/-- **The registered peers are those that are named**, in every run. -/
theorem named_of_reachable (h : run.Reachable) : run.Named := by
  have hboth : run.Valid ∧ run.Named :=
    Transition.Reachable.invariant (fun run => run.Valid ∧ run.Named)
      (fun _ hg => ⟨valid_of_genesis hg, named_of_genesis hg⟩)
      (fun _ _ hb hs => ⟨hb.1.step hs, hb.2.step hb.1 hs⟩) h
  exact hboth.2

/-- **The registry has what the owners named last.** -/
theorem names_eq_some_iff (h : run.Reachable) : run.names a = some peerId ↔
    ∃ p ∈ run.ledger.peers, p.suiAddress = a ∧ p.peerId = peerId :=
  (named_of_reachable h).names a peerId

/-- A step in which the address names no other peer id. Others may try. -/
inductive Keeps (a : Address) (peerId : Bytes) : StakingRun → StakingRun → Prop
  | tx {run : StakingRun} {l' : StakingLedger} (ctx : TxContext) (c : StakingCall) :
      (∀ other, StakingMove.named ⟨run.ledger, ctx, c⟩ = some (a, other) → other = peerId) →
      run.ledger.submit ctx c = .ok l' → Keeps a peerId run ⟨l', run.moves ++ [⟨run.ledger, ctx, c⟩]⟩

/-- A move that keeps a name is a step. -/
theorem Keeps.step (h : Keeps a peerId run run') : Step run run' := by
  cases h with
  | tx ctx c _ hsub => exact .tx ctx c hsub

/-- The address has the peer id for as long as it names no other. -/
theorem Keeps.names (h : Keeps a peerId run run') (hnamed : run.names a = some peerId) :
    run'.names a = some peerId := by
  cases h with
  | tx ctx c hkeeps hsub =>
      rw [names_snoc]
      by_cases habout : ∃ other, StakingMove.named ⟨run.ledger, ctx, c⟩ = some (a, other)
      · obtain ⟨other, hother⟩ := habout
        rw [Latest.learn_of_some hother, Function.update_self, hkeeps other hother]
      · rw [Latest.learn_of_ne fun other hother => habout ⟨other, hother⟩]
        exact hnamed

/-- What is named stays named. -/
theorem names_of_keeps (h : ReflTransGen (Keeps a peerId) run run')
    (hnamed : run.names a = some peerId) : run'.names a = some peerId := by
  induction h with
  | refl => exact hnamed
  | tail _ hlast ih => exact hlast.names ih

/-- An address that named a peer id has one from then on. -/
theorem names_isSome_of_run (h : ReflTransGen Step run run') (hnamed : (run.names a).isSome) :
    (run'.names a).isSome := by
  induction h with
  | refl => exact hnamed
  | tail _ hlast ih =>
      cases hlast with
      | tx ctx c _ => exact Latest.latest_append_isSome ih _

end StakingRun

/-! ### What the platform takes -/

/-- The deployment of the staking package: the package, its registry, the type of the WAL coin,
and the version from which each object is shared. -/
structure DeployedStaking where
  package : Address
  registry : ID
  wal : StructTag
  sharedFrom : ID → ℕ

/-- The transaction is for this deployment. -/
structure DeployedStaking.Fits (d : DeployedStaking) (tx : StakingTransaction) : Prop where
  package : tx.package = d.package
  registry : tx.registry.objectId = d.registry.bytes
  registryVersion : tx.registry.initialSharedVersion = d.sharedFrom d.registry
  peerVersion : ∀ peer ∈ tx.peer, peer.initialSharedVersion = d.sharedFrom ⟨peer.objectId⟩
  coin : ∀ bond ∈ tx.bond, bond.1 = d.wal

/-- The transaction of a command is taken: it takes the run one move further. -/
def Submission.Takes (s : Submission) (d : DeployedStaking) (freshId : ID)
    (run run' : StakingRun) : Prop :=
  ∃ tx c l', s.tx = some tx ∧ tx.call? = some c ∧ d.Fits tx ∧
    run.ledger.submit ⟨tx.sender, freshId⟩ c = .ok l' ∧
    run' = ⟨l', run.moves ++ [⟨run.ledger, ⟨tx.sender, freshId⟩, c⟩]⟩

/-- A command that is taken is a step. -/
theorem Submission.Takes.step {s : Submission} {d : DeployedStaking} {freshId : ID}
    {run run' : StakingRun} (h : s.Takes d freshId run run') : StakingRun.Step run run' := by
  obtain ⟨tx, c, l', -, -, -, hsub, rfl⟩ := h
  exact .tx _ c hsub

/-! ### The commands -/

/-- The commands of a node that write its peer id: its start, and the two of the API. -/
inductive RegistrationCommand
  | start
  | register
  | updatePeerId
deriving DecidableEq

/-- What the wallet does for a command. -/
def RegistrationCommand.submission (command : RegistrationCommand) (wallet : ZingWallet)
    (lib : Externals PeerId) (base64Decode : String → Except String Bytes) (peerIdBytes : Bytes)
    (reads : RegistryReads) (w : WriteOutcome) : Submission :=
  match command with
  | .start => wallet.ensurePeerRegistered lib base64Decode peerIdBytes reads w
  | .register => wallet.registerPeer lib peerIdBytes w
  | .updatePeerId => wallet.updatePeerId lib base64Decode peerIdBytes reads.info w

section Commands

variable {wallet : ZingWallet} {settlement : SettlementConfig} {lib : Externals PeerId}
  {base64Decode : String → Except String Bytes} {peerIdBytes : Bytes} {reads : RegistryReads}
  {w : WriteOutcome} {command : RegistrationCommand} {tx : StakingTransaction}
  {run run' run₁ run₂ run₃ : StakingRun} {d : DeployedStaking} {freshId : ID}

/-- A command writes as one of the two that the API has. -/
theorem submission_cases (command : RegistrationCommand) (wallet : ZingWallet)
    (lib : Externals PeerId) (base64Decode : String → Except String Bytes) (peerIdBytes : Bytes)
    (reads : RegistryReads) (w : WriteOutcome) :
    command.submission wallet lib base64Decode peerIdBytes reads w
        = wallet.registerPeer lib peerIdBytes w ∨
      command.submission wallet lib base64Decode peerIdBytes reads w
        = wallet.updatePeerId lib base64Decode peerIdBytes reads.info w := by
  cases command with
  | start =>
      by_cases hlookup : wallet.isPeerRegistered reads.lookup = .ok true
      · exact .inr (ensurePeerRegistered_of_true hlookup w)
      · exact .inl (ensurePeerRegistered_of_ne_true hlookup w)
  | register => exact .inl rfl
  | updatePeerId => exact .inr rfl

/-- What a command submits: it is from the wallet, and names the node's peer id. -/
theorem call_of_submission (hs : wallet.settlement = some settlement)
    (htx : (command.submission wallet lib base64Decode peerIdBytes reads w).tx = some tx) :
    tx.sender = wallet.address ∧
      (tx.call? = some (.register peerIdBytes 1000000000) ∨
        (∃ info, wallet.getRegisteredPeerInfo base64Decode reads.info = .ok (some info) ∧
          info.peerIdBytes ≠ peerIdBytes) ∧
        ∃ id, tx.call? = some (.updatePeerId id peerIdBytes)) := by
  rcases submission_cases command wallet lib base64Decode peerIdBytes reads w with
    hcommand | hcommand <;> rw [hcommand] at htx
  · obtain ⟨-, hbuilt⟩ := (registerPeer_tx_iff hs).mp htx
    obtain ⟨tag, -, rfl⟩ := Option.map_eq_some_iff.mp hbuilt
    exact ⟨rfl, .inl rfl⟩
  · obtain ⟨-, info, peerObjAddr, hinfo, hne, -, rfl⟩ := (updatePeerId_tx_iff hs).mp htx
    exact ⟨rfl, .inr ⟨⟨info, hinfo, hne⟩, _, rfl⟩⟩

/-- A command that is taken names the node's peer id. -/
theorem names_of_takes (hs : wallet.settlement = some settlement)
    (h : (command.submission wallet lib base64Decode peerIdBytes reads w).Takes d freshId run run') :
    run'.names wallet.address = some peerIdBytes := by
  obtain ⟨tx, c, l', htx, hcall, -, -, rfl⟩ := h
  obtain ⟨hsender, hregister | ⟨-, id, hupdate⟩⟩ := call_of_submission hs htx
  · obtain rfl := Option.some.inj (hregister.symm.trans hcall)
    rw [StakingRun.names_snoc, Latest.learn_of_some StakingMove.named_register, hsender,
      Function.update_self]
  · obtain rfl := Option.some.inj (hupdate.symm.trans hcall)
    rw [StakingRun.names_snoc, Latest.learn_of_some StakingMove.named_updatePeerId, hsender,
      Function.update_self]

/-- No transaction of a command is taken once the wallet is registered with its peer id. -/
theorem not_takes_of_names (hs : wallet.settlement = some settlement) (h : run₂.Reachable)
    (hnamed : run₂.names wallet.address = some peerIdBytes)
    (hreads : reads.info.Honest settlement base64Decode run₂.ledger)
    (hrun : ReflTransGen StakingRun.Step run₂ run₃) :
    ¬(command.submission wallet lib base64Decode peerIdBytes reads w).Takes d freshId run₃ run' := by
  rintro ⟨tx, c, l', htx, hcall, -, hsub, -⟩
  obtain ⟨hsender, hregister | ⟨⟨info, hinfo, hne⟩, -⟩⟩ := call_of_submission hs htx
  · -- the wallet is in the registry already
    obtain rfl := Option.some.inj (hregister.symm.trans hcall)
    have hvalid := StakingRun.valid_of_reachable (h.run hrun)
    have hsome : (run₃.names wallet.address).isSome :=
      StakingRun.names_isSome_of_run hrun (by rw [hnamed]; rfl)
    obtain ⟨other, hother⟩ := Option.isSome_iff_exists.mp hsome
    obtain ⟨p, hp, haddr, -⟩ := (StakingRun.names_eq_some_iff (h.run hrun)).mp hother
    cases StakingLedger.accepted_of_submit hsub with
    | register fresh fits new enough =>
        rw [hvalid.registry_keys, hsender, ← haddr] at new
        exact new (List.mem_map_of_mem hp)
  · -- the peer id that was read is the node's
    have hvalid := StakingRun.valid_of_reachable h
    obtain ⟨q, hq, hqaddr, -, hread⟩ :=
      (getRegisteredPeerInfo_eq_some_iff hs hvalid hreads).mp hinfo
    obtain ⟨_, _, -, -, rfl⟩ := (readPeerInfo_eq_ok_iff hreads hq).mp hread
    have hqnamed : run₂.names wallet.address = some q.peerId :=
      (StakingRun.names_eq_some_iff h).mpr ⟨q, hq, hqaddr, rfl⟩
    exact hne (Option.some.inj (hqnamed.symm.trans hnamed))

/-- A start submits exactly when it does not find an active peer of the wallet. -/
theorem start_submits_iff (hs : wallet.settlement = some settlement)
    (hcoin : (lib.structTagFromStr settlement.walCoinType).isSome) (h : run.Reachable)
    (hreads : reads.Honest settlement base64Decode run.ledger) {p : Peer}
    (hp : p ∈ run.ledger.peers) (haddr : p.suiAddress = wallet.address)
    (hpeer : p.peerId = peerIdBytes) :
    (∃ tx, (RegistrationCommand.start.submission wallet lib base64Decode peerIdBytes reads w).tx
        = some tx) ↔
      w.Ready ∧ ¬(p.isActive = true ∧ reads.lookup.Finds settlement p) := by
  have hvalid := StakingRun.valid_of_reachable h
  have hsame : ∀ q ∈ run.ledger.peers, q.suiAddress = wallet.address → q = p :=
    fun q hq hqaddr => KeyedList.eq_of_key_eq hvalid.addresses_nodup hq hp (hqaddr.trans haddr.symm)
  have hlookup : wallet.isPeerRegistered reads.lookup = .ok true ↔
      p.isActive = true ∧ reads.lookup.Finds settlement p := by
    rw [isPeerRegistered_eq_true_iff hs hvalid hreads.lookup]
    constructor
    · rintro ⟨q, hq, hqaddr, hfinds, hactive⟩
      obtain rfl := hsame q hq hqaddr
      exact ⟨hactive, hfinds⟩
    · rintro ⟨hactive, hfinds⟩
      exact ⟨p, hp, haddr, hfinds, hactive⟩
  rw [← hlookup, RegistrationCommand.submission]
  by_cases htrue : wallet.isPeerRegistered reads.lookup = .ok true
  · rw [ensurePeerRegistered_of_true htrue]
    refine ⟨fun ⟨tx, htx⟩ => ?_, fun hnot => absurd htrue hnot.2⟩
    obtain ⟨-, info, -, hinfo, hne, -⟩ := (updatePeerId_tx_iff hs).mp htx
    obtain ⟨q, hq, hqaddr, -, hread⟩ :=
      (getRegisteredPeerInfo_eq_some_iff hs hvalid hreads.info).mp hinfo
    obtain ⟨_, _, -, -, rfl⟩ := (readPeerInfo_eq_ok_iff hreads.info hq).mp hread
    exact absurd ((congrArg Peer.peerId (hsame q hq hqaddr)).trans hpeer) hne
  · rw [ensurePeerRegistered_of_ne_true htrue]
    have hbuilds : (settlement.buildRegisterTransaction lib wallet.address peerIdBytes
        1000000000).isSome := by
      rw [SettlementConfig.buildRegisterTransaction, Option.isSome_map]
      exact hcoin
    constructor
    · rintro ⟨tx, htx⟩
      exact ⟨((registerPeer_tx_iff hs).mp htx).1, htrue⟩
    · rintro ⟨hready, -⟩
      obtain ⟨tx, hbuilt⟩ := Option.isSome_iff_exists.mp hbuilds
      exact ⟨tx, (registerPeer_tx_iff hs).mpr ⟨hready, hbuilt⟩⟩

/-- **A registration lasts, and is not repeated.** Once a command of the node is taken, through
every run in which the wallet names no other peer id, the registry maps the wallet to exactly one
peer, with the node's peer id, active until the admin deactivates it. From then on no command of
the node is taken any more, however late, and its starts submit nothing unless they do not find
the peer or it is deactivated. -/
theorem registration_settled (hs : wallet.settlement = some settlement)
    (hcoin : (lib.structTagFromStr settlement.walCoinType).isSome) (h : run.Reachable)
    (htakes : (command.submission wallet lib base64Decode peerIdBytes reads w).Takes d freshId
      run run₁)
    (hkeeps : ReflTransGen (StakingRun.Keeps wallet.address peerIdBytes) run₁ run₂) :
    ∃ p ∈ run₂.ledger.peers, p.suiAddress = wallet.address ∧ p.peerId = peerIdBytes ∧
      run₂.ledger.findPeer wallet.address = some p.id ∧
      (∀ q ∈ run₂.ledger.peers, q.suiAddress = wallet.address → q = p) ∧
      (p.isActive = true ↔ ∀ m ∈ run₂.moves, m.call ≠ .deactivate p.id) ∧
      ∀ reads' w', RegistryReads.Honest settlement base64Decode run₂.ledger reads' →
        ((∃ tx, (RegistrationCommand.start.submission wallet lib base64Decode peerIdBytes reads'
            w').tx = some tx) ↔
          w'.Ready ∧ ¬(p.isActive = true ∧ reads'.lookup.Finds settlement p)) ∧
        ∀ (command' : RegistrationCommand) d' freshId' run₃ run₄,
          ReflTransGen StakingRun.Step run₂ run₃ →
          ¬(command'.submission wallet lib base64Decode peerIdBytes reads' w').Takes d' freshId'
            run₃ run₄ := by
  have hreach : run₂.Reachable :=
    (h.snoc htakes.step).run (ReflTransGen.mono (fun _ _ => StakingRun.Keeps.step) _ _ hkeeps)
  have hvalid := StakingRun.valid_of_reachable hreach
  have hnamed : run₂.names wallet.address = some peerIdBytes :=
    StakingRun.names_of_keeps hkeeps (names_of_takes hs htakes)
  obtain ⟨p, hp, haddr, hpeer⟩ := (StakingRun.names_eq_some_iff hreach).mp hnamed
  refine ⟨p, hp, haddr, hpeer, haddr ▸ StakingRun.findPeer_of_mem hvalid hp, fun q hq hqaddr => ?_,
    (StakingRun.named_of_reachable hreach).active p hp, fun reads' w' hreads => ⟨?_, ?_⟩⟩
  · exact KeyedList.eq_of_key_eq hvalid.addresses_nodup hq hp (hqaddr.trans haddr.symm)
  · exact start_submits_iff hs hcoin hreach hreads hp haddr hpeer
  · intro command' d' freshId' run₃ run₄ hrun
    exact not_takes_of_names hs hreach hnamed hreads.info hrun

end Commands

/-! ### A registration, and the same wallet after its peer was deactivated -/

/-- The deployment that the configuration is of. -/
def stakedDeployment : DeployedStaking where
  package := sampleSettlement.packageId
  registry := ⟨sampleSettlement.registryObjectId⟩
  wal := ⟨"0x1::wal::WAL"⟩
  sharedFrom _ := 1

/-- A start at which no read arrives registers the wallet. -/
theorem registered_by_start :
    (RegistrationCommand.start.submission payingWallet sampleExternals sampleBase64Decode [1]
      ⟨⟨.error "offline", fun _ => [], fun _ => .error "offline"⟩,
        ⟨.error "offline", fun _ => [], fun _ => .error "offline"⟩⟩
      ⟨.ok (), .ok (), .ok (), .ok ()⟩).Takes stakedDeployment (sampleId 1)
        (StakingRun.start (sampleAddress 9)) registeredRun :=
  ⟨_, _, _, rfl, rfl, ⟨rfl, rfl, rfl, by simp, by simp [stakedDeployment, sampleSettlement]⟩, rfl, rfl⟩

/-- The admin deactivates the peer: it keeps its peer id, and the next start submits a
registration that is not taken. -/
theorem registration_settled_deactivated :
    ∃ p ∈ deactivatedRun.ledger.peers, p.peerId = [1] ∧ p.isActive = false ∧
      (∃ tx, (payingWallet.ensurePeerRegistered sampleExternals sampleBase64Decode [1]
        (sampleReads false) ⟨.ok (), .ok (), .ok (), .ok ()⟩).tx = some tx) ∧
      ∀ freshId run, ¬(payingWallet.ensurePeerRegistered sampleExternals sampleBase64Decode [1]
        (sampleReads false) ⟨.ok (), .ok (), .ok (), .ok ()⟩).Takes stakedDeployment freshId
          deactivatedRun run := by
  have hadmin : StakingRun.Keeps (sampleAddress 5) [1] registeredRun deactivatedRun :=
    .tx ⟨sampleAddress 9, sampleId 2⟩ (.deactivate (sampleId 1)) (nofun) rfl
  obtain ⟨p, hp, -, hpeer, -, -, hactive, hlater⟩ :=
    registration_settled rfl rfl (StakingRun.reachable_start _) registered_by_start (.single hadmin)
  obtain rfl : p = samplePeer false := by
    have hpeers : deactivatedRun.ledger.peers = [samplePeer false] := by decide
    rw [hpeers, List.mem_singleton] at hp
    exact hp
  obtain ⟨hsubmits, hnever⟩ := hlater (sampleReads false) ⟨.ok (), .ok (), .ok (), .ok ()⟩
    (sampleReads_honest (by decide) (by decide))
  exact ⟨_, hp, rfl, rfl, hsubmits.mpr ⟨⟨rfl, rfl, rfl⟩, fun h => nomatch h.1⟩,
    fun freshId run => hnever .start _ freshId _ run .refl⟩

end ZingCdn
