import ZingCdn.Commission
import ZingCdn.Library.Latest

/-!
# The Registry of Vaults

The shared table from the address of a peer to its vault. `new_vault` enters the vault it
makes under its sender, and aborts when the sender has an entry. `add_vault`, which takes the
admin capability, enters any id under any address, over an entry that is there. Nothing
removes an entry, and `create_vault` makes a vault without one.

The runs here are those of the vaults (`ZingCdn.VaultLedger`) with the links of the admin
between them, and the calls and links that took effect are kept in order. The table is what
they last said of each address; `vault_registry` has the consequences.

## Main results

* `RegistryRun.Valid.step`: the invariant of a step.
* `RegistryRun.vault_registry`: the table, over every run.
-/

namespace ZingCdn

/-- `add_vault`: the entry of the address is overwritten, or there is a new one. -/
def addVault (peerVaults : List (Address × ID)) (peerAddress : Address) (peerVaultId : ID) :
    List (Address × ID) :=
  if peerAddress ∈ peerVaults.map Prod.fst then
    KeyedList.replace Prod.fst (peerAddress, peerVaultId) peerVaults
  else (peerAddress, peerVaultId) :: peerVaults

/-- A call of the vault contracts, or a link that the admin adds. -/
inductive RegistryMove
  | call (ctx : TxContext) (c : VaultCall)
  | link (peerAddress : Address) (peerVaultId : ID)
deriving DecidableEq

/-- The entry that a move makes. -/
def RegistryMove.entry : RegistryMove → Option (Address × ID)
  | .call ctx .newVault => some (ctx.sender, ctx.freshId)
  | .call .. => none
  | .link peerAddress peerVaultId => some (peerAddress, peerVaultId)

/-- The vault that the table has for an address. -/
def VaultLedger.registered (l : VaultLedger) (a : Address) : Option ID :=
  (KeyedList.lookup Prod.fst a l.peerVaults).map Prod.snd

/-- The chain, and the moves that took effect, oldest first. -/
structure RegistryRun where
  ledger : VaultLedger
  moves : List RegistryMove

namespace RegistryRun

/-- Before the first move. -/
def Genesis (run : RegistryRun) : Prop := run.ledger.Genesis ∧ run.moves = []

/-- One step: a transaction of anybody, a link of the admin, or a change of the WAL outside of
the vaults. -/
inductive Step : RegistryRun → RegistryRun → Prop
  | call {l l' : VaultLedger} {moves : List RegistryMove} (ctx : TxContext) (c : VaultCall) :
      l.submit ctx c = .ok l' → Step ⟨l, moves⟩ ⟨l', moves ++ [.call ctx c]⟩
  | link {l : VaultLedger} {moves : List RegistryMove} (a : Address) (id : ID) :
      Step ⟨l, moves⟩ ⟨{ l with peerVaults := addVault l.peerVaults a id }, moves ++ [.link a id]⟩
  | supply {l : VaultLedger} {moves : List RegistryMove} (circulating : ℕ) :
      circulating + l.locked ≤ u64Max → Step ⟨l, moves⟩ ⟨{ l with circulating }, moves⟩

/-- The states that some run ends in. -/
def Reachable : RegistryRun → Prop := Transition.Reachable Genesis Step

/-- What the moves last said of each address. -/
def entries (run : RegistryRun) : Address → Option ID :=
  Latest.latest RegistryMove.entry run.moves

end RegistryRun

/-! ### The table -/

namespace VaultLedger

variable {l l' : VaultLedger} {a b : Address} {id : ID}

/-- The table decides who is registered. -/
theorem registered_congr (h : l'.peerVaults = l.peerVaults) : l'.registered = l.registered := by
  funext a
  rw [registered, registered, h]

/-- Who has no entry. -/
theorem registered_eq_none_iff : l.registered a = none ↔ a ∉ l.peerVaults.map Prod.fst := by
  rw [registered, Option.map_eq_none_iff, KeyedList.lookup, List.find?_eq_none, List.mem_map]
  constructor
  · rintro h ⟨entry, hentry, rfl⟩
    exact h entry hentry (decide_eq_true rfl)
  · rintro h entry hentry heq
    exact h ⟨entry, hentry, of_decide_eq_true heq⟩

/-- A new entry. -/
theorem registered_cons (hl' : l'.peerVaults = (a, id) :: l.peerVaults) :
    l'.registered = Function.update l.registered a (some id) := by
  funext b
  by_cases hb : b = a
  · subst hb
    simp [registered, hl', KeyedList.lookup]
  · rw [Function.update_of_ne hb, registered, registered, hl', KeyedList.lookup,
      List.find?_cons_of_neg (by simpa using fun h => hb h.symm)]
    rfl

/-- An entry that is overwritten. -/
theorem registered_replace (hnd : (l.peerVaults.map Prod.fst).Nodup)
    (ha : a ∈ l.peerVaults.map Prod.fst)
    (hl' : l'.peerVaults = KeyedList.replace Prod.fst (a, id) l.peerVaults) :
    l'.registered = Function.update l.registered a (some id) := by
  obtain ⟨entry, hentry, rfl⟩ := List.mem_map.mp ha
  have hnd' : (l'.peerVaults.map Prod.fst).Nodup := by rwa [hl', KeyedList.map_key_replace]
  funext b
  by_cases hb : b = entry.1
  · subst hb
    have hnew : (entry.1, id) ∈ l'.peerVaults :=
      hl' ▸ KeyedList.mem_replace_self hentry rfl
    rw [Function.update_self, registered, KeyedList.lookup_of_mem hnd' hnew]
    rfl
  · rw [Function.update_of_ne hb, registered, registered, hl',
      KeyedList.lookup_replace_of_ne (v := (entry.1, id)) fun heq => hb heq.symm]

/-- A link of the admin. -/
theorem registered_addVault (hnd : (l.peerVaults.map Prod.fst).Nodup)
    (hl' : l'.peerVaults = addVault l.peerVaults a id) :
    l'.registered = Function.update l.registered a (some id) := by
  rw [addVault] at hl'
  split at hl'
  · rename_i ha
    exact registered_replace hnd ha hl'
  · exact registered_cons hl'

/-- A link replaces an entry or adds one. -/
theorem nodup_addVault {table : List (Address × ID)} (hnd : (table.map Prod.fst).Nodup)
    (a : Address) (id : ID) : ((addVault table a id).map Prod.fst).Nodup := by
  rw [addVault]
  split
  · rwa [KeyedList.map_key_replace]
  · rename_i ha
    exact List.nodup_cons.mpr ⟨ha, hnd⟩

/-- A link of the admin leaves vaults and certificates alone. -/
theorem valid_of_link (h : l.Valid) (a : Address) (id : ID) :
    Valid { l with peerVaults := addVault l.peerVaults a id } :=
  ⟨h.vaults_nodup, h.certs_nodup, h.vault_used, h.cert_used, h.cert_pos, h.solvent, h.shares,
    h.supply⟩

/-- **What a call does to the table**: the entry of a new vault, or nothing. -/
theorem table_of_submit {ctx : TxContext} {c : VaultCall} (hsub : l.submit ctx c = .ok l') :
    ((RegistryMove.call ctx c).entry = none ∧ l'.peerVaults = l.peerVaults) ∨
      (c = .newVault ∧ ctx.sender ∉ l.peerVaults.map Prod.fst ∧
        l'.peerVaults = (ctx.sender, ctx.freshId) :: l.peerVaults ∧
        ⟨ctx.freshId, ctx.sender, 0, 0, 1000, 0⟩ ∈ l'.vaults) := by
  cases accepted_of_submit hsub with
  | newVault _ ok =>
      obtain ⟨ha, htable, rfl⟩ := newVault_eq_ok_iff.mp ok
      exact .inr ⟨rfl, ha, htable, List.mem_cons_self⟩
  | createVault | delegate | undelegate | pay | claimEarnings | transfer => exact .inl ⟨rfl, rfl⟩

/-- A call keeps what a vault is: its id, its peer and its commission. -/
theorem same_of_submit (h : l.Valid) {ctx : TxContext} {c : VaultCall}
    (hsub : l.submit ctx c = .ok l') {v : PeerVault} (hv : v ∈ l.vaults) :
    ∃ v' ∈ l'.vaults, v'.id = v.id ∧ v'.peerAddress = v.peerAddress ∧
      v'.commissionBps = v.commissionBps := by
  obtain ⟨v', hfound, hchanged⟩ := changed_of_submit h hsub hv
  refine ⟨v', mem_of_vault? hfound, KeyedList.key_of_lookup hfound, ?_⟩
  cases hchanged <;> exact ⟨rfl, rfl⟩

end VaultLedger

/-! ### Runs -/

namespace RegistryRun

open VaultLedger

variable {run run' : RegistryRun}

/-- The vault that a sender has opened. -/
def Opened (l : VaultLedger) (ctx : TxContext) : Prop :=
  ∃ v ∈ l.vaults, v.id = ctx.freshId ∧ v.peerAddress = ctx.sender ∧ v.commissionBps = 1000

/-- The invariant of every run. -/
structure Valid (run : RegistryRun) : Prop where
  ledger : run.ledger.Valid
  keys : (run.ledger.peerVaults.map Prod.fst).Nodup
  table : run.ledger.registered = run.entries
  opened : ∀ ctx, .call ctx .newVault ∈ run.moves → Opened run.ledger ctx
  once : ∀ before ctx after, run.moves = before ++ .call ctx .newVault :: after →
    Latest.latest RegistryMove.entry before ctx.sender = none

/-- The registry is empty at first. -/
theorem valid_of_genesis (h : run.Genesis) : run.Valid := by
  obtain ⟨hledger, hmoves⟩ := h
  have htable : run.ledger.peerVaults = [] := hledger.2.2.1
  refine ⟨VaultLedger.valid_of_genesis hledger, ?_, ?_, ?_, ?_⟩
  · rw [htable]
    exact List.nodup_nil
  · funext a
    rw [registered, htable, entries, hmoves]
    rfl
  · simp [hmoves]
  · simp [hmoves]

/-- A move is the last of a longer history, or one of the history before. -/
theorem snoc_split {M : Type} {moves before after : List M} {last move : M}
    (h : moves ++ [last] = before ++ move :: after) :
    (moves = before ∧ last = move) ∨ ∃ rest, moves = before ++ move :: rest := by
  rcases List.eq_nil_or_concat after with rfl | ⟨rest, event, rfl⟩
  · obtain ⟨hmoves, heq⟩ := List.append_inj' h rfl
    exact .inl ⟨hmoves, List.singleton_inj.mp heq⟩
  · rw [List.concat_eq_append, ← List.cons_append, ← List.append_assoc] at h
    exact .inr ⟨rest, (List.append_inj' h rfl).1⟩

/-- One more move. -/
theorem Valid.snoc {l l' : VaultLedger} {moves : List RegistryMove} {move : RegistryMove}
    (h : Valid ⟨l, moves⟩) (hledger : l'.Valid) (hkeys : (l'.peerVaults.map Prod.fst).Nodup)
    (htable : l'.registered = Latest.learn RegistryMove.entry l.registered move)
    (hkept : ∀ ctx, Opened l ctx → Opened l' ctx)
    (hnew : ∀ ctx, move = .call ctx .newVault → Opened l' ctx ∧ l.registered ctx.sender = none) :
    Valid ⟨l', moves ++ [move]⟩ := by
  refine ⟨hledger, hkeys, ?_, fun ctx hmem => ?_, fun before ctx after hsplit => ?_⟩
  · rw [entries, Latest.latest_snoc]
    exact htable.trans (congrArg (Latest.learn _ · move) h.table)
  · rcases List.mem_append.mp hmem with hmem | hmem
    · exact hkept ctx (h.opened ctx hmem)
    · exact (hnew ctx (List.mem_singleton.mp hmem).symm).1
  · rcases snoc_split hsplit with ⟨rfl, hmove⟩ | ⟨rest, hmoves⟩
    · exact (congrFun h.table ctx.sender).symm.trans (hnew ctx hmove).2
    · exact h.once before ctx rest hmoves

/-- **One step.** -/
theorem Valid.step (h : run.Valid) (hs : Step run run') : run'.Valid := by
  cases hs with
  | @call l l' moves ctx c hsub =>
      have hledger : l'.Valid := h.ledger.step (.tx ctx c hsub)
      have hkept : ∀ ctx', Opened l ctx' → Opened l' ctx' := by
        rintro ctx' ⟨v, hv, hid, hpeer, hbps⟩
        obtain ⟨v', hv', hid', hpeer', hbps'⟩ := same_of_submit h.ledger hsub hv
        exact ⟨v', hv', hid'.trans hid, hpeer'.trans hpeer, hbps'.trans hbps⟩
      rcases table_of_submit hsub with ⟨hentry, htable⟩ | ⟨rfl, hnone, htable, hmade⟩
      · refine h.snoc hledger (htable ▸ h.keys) ?_ hkept ?_
        · rw [Latest.learn_of_none hentry, registered_congr htable]
        · rintro ctx' hmove
          rw [hmove] at hentry
          cases hentry
      · refine h.snoc hledger ?_ (registered_cons htable) hkept ?_
        · rw [htable]
          exact List.nodup_cons.mpr ⟨hnone, h.keys⟩
        · rintro ctx' hmove
          cases hmove
          exact ⟨⟨_, hmade, rfl, rfl, rfl⟩, registered_eq_none_iff.mpr hnone⟩
  | @link l moves a id =>
      exact h.snoc (valid_of_link h.ledger a id) (nodup_addVault h.keys a id)
        (registered_addVault h.keys rfl) (fun _ hopened => hopened) (fun _ hmove => nomatch hmove)
  | @supply l moves circulating hsup =>
      exact ⟨h.ledger.step (.supply circulating hsup), h.keys, h.table, h.opened, h.once⟩

/-- **The registry is valid in every run.** -/
theorem valid_of_reachable (h : run.Reachable) : run.Valid :=
  Transition.Reachable.invariant Valid (fun _ => valid_of_genesis) (fun _ _ => Valid.step) h

/-- An entry stays, whatever comes after. -/
theorem registered_of_step (h : run.Valid) (hs : Step run run') {a : Address}
    (ha : (run.ledger.registered a).isSome) : (run'.ledger.registered a).isSome := by
  have h' := h.step hs
  rw [h.table] at ha
  rw [h'.table]
  cases hs with
  | call | link =>
      rw [entries, Latest.latest_snoc]
      exact Latest.learn_isSome ha
  | supply => exact ha

/-- Who can open a vault. -/
theorem exists_submit_newVault_iff {l : VaultLedger} {ctx : TxContext}
    (hfresh : ctx.freshId ∉ l.ids) :
    (∃ l', l.submit ctx .newVault = .ok l') ↔ l.registered ctx.sender = none := by
  rw [registered_eq_none_iff]
  constructor
  · rintro ⟨l', hsub⟩
    cases accepted_of_submit hsub with
    | newVault _ ok => exact (newVault_eq_ok_iff.mp ok).1
  · intro hnone
    exact ⟨_, submit_of_accepted (.newVault hfresh (newVault_eq_ok_iff.mpr ⟨hnone, rfl, rfl⟩))⟩

/-- **The registry of vaults.** In every run with every link of the admin, no address has two
entries, and each has what the last vault it opened, or the last link for it, gave it; an entry
stays. An address opens a vault exactly when it has no entry, so it opens at most one and none
after a link; the vault that it has opened is there, and is its own. -/
theorem vault_registry (h : run.Reachable) :
    (run.ledger.peerVaults.map Prod.fst).Nodup ∧
      run.ledger.registered = run.entries ∧
      (∀ run', Relation.ReflTransGen Step run run' → ∀ a, (run.ledger.registered a).isSome →
        (run'.ledger.registered a).isSome) ∧
      (∀ ctx, ctx.freshId ∉ run.ledger.ids →
        ((∃ l', run.ledger.submit ctx .newVault = .ok l') ↔ run.entries ctx.sender = none)) ∧
      (∀ before ctx after, run.moves = before ++ .call ctx .newVault :: after →
        (∀ move ∈ before, ∀ id, move.entry ≠ some (ctx.sender, id)) ∧
          (∀ later ctx' rest, after = later ++ .call ctx' .newVault :: rest →
            ctx'.sender ≠ ctx.sender)) ∧
      ∀ ctx, .call ctx .newVault ∈ run.moves → Opened run.ledger ctx := by
  have hvalid := valid_of_reachable h
  refine ⟨hvalid.keys, hvalid.table, fun run' hrun a ha => ?_, fun ctx hfresh => ?_,
    fun before ctx after hmoves => ⟨?_, fun later ctx' rest hafter heq => ?_⟩, hvalid.opened⟩
  · induction hrun with
    | refl => exact ha
    | tail hfirst hlast ih => exact registered_of_step (valid_of_reachable (h.run hfirst)) hlast ih
  · rw [exists_submit_newVault_iff hfresh, hvalid.table]
  · exact Latest.latest_eq_none_iff.mp (hvalid.once before ctx after hmoves)
  · have hfirst : (Latest.latest RegistryMove.entry (before ++ [.call ctx .newVault])
        ctx.sender).isSome := by
      have hentry : (RegistryMove.call ctx .newVault).entry = some (ctx.sender, ctx.freshId) := rfl
      rw [Latest.latest_snoc, Latest.learn_of_some hentry, Function.update_self]
      rfl
    have hsecond := hvalid.once (before ++ .call ctx .newVault :: later) ctx' rest
      (by rw [hmoves, hafter, List.append_assoc, List.cons_append])
    have hsome := Latest.latest_append_isSome hfirst later
    rw [List.append_assoc, List.singleton_append, ← heq, hsecond] at hsome
    cases hsome

/-- The address 1 has opened a vault. -/
def openedLedger : VaultLedger :=
  { genesis 100 with
    vaults := [⟨sampleId 1, sampleAddress 1, 0, 0, 1000, 0⟩]
    peerVaults := [(sampleAddress 1, sampleId 1)]
    ids := [sampleId 1] }

/-- The run that opens it. -/
def openedRun : RegistryRun := ⟨openedLedger, [.call ⟨sampleAddress 1, sampleId 1⟩ .newVault]⟩

/-- The admin has linked the address 2 to it. -/
def linkedRun : RegistryRun where
  ledger :=
    { openedLedger with
      peerVaults := addVault openedLedger.peerVaults (sampleAddress 2) (sampleId 1) }
  moves := [.call ⟨sampleAddress 1, sampleId 1⟩ .newVault, .link (sampleAddress 2) (sampleId 1)]

theorem reachable_start : Reachable ⟨genesis 100, []⟩ :=
  Transition.Reachable.of_init ⟨⟨rfl, rfl, rfl, rfl, rfl, by decide⟩, rfl⟩

theorem reachable_openedRun : openedRun.Reachable :=
  reachable_start.snoc (.call ⟨sampleAddress 1, sampleId 1⟩ .newVault rfl)

/-- The admin links another address to the vault. -/
theorem step_linkedRun : Step openedRun linkedRun := .link (sampleAddress 2) (sampleId 1)

theorem reachable_linkedRun : linkedRun.Reachable := reachable_openedRun.snoc step_linkedRun

/-- The address 2 can open no vault. -/
theorem vault_registry_linked :
    linkedRun.ledger.registered = linkedRun.entries ∧
      ¬∃ l', linkedRun.ledger.submit ⟨sampleAddress 2, sampleId 2⟩ .newVault = .ok l' := by
  obtain ⟨-, htable, -, hopens, -⟩ := vault_registry reachable_linkedRun
  refine ⟨htable, fun hopen => ?_⟩
  have hnone := (hopens ⟨sampleAddress 2, sampleId 2⟩ (by decide)).mp hopen
  revert hnone
  decide

end RegistryRun

end ZingCdn
