import ZingCdn.BlobStore

/-!
# An Eviction Alone

What `EvictionManager::run` does when no other task touches the database, for every
combination of failing operations. Which blobs it deletes has a closed form: an unpinned
blob is deleted when the unpinned blobs before it, in the order of the keys, do not make
enough room, provided that every operation up to its deletion succeeds.

## Main results

* `EvictionManager.leaves_run`: an eviction alone returns, and deletes the blobs it evicts.
-/

open Program Program.Prog

namespace ZingCdn

/-- Run a program alone on a database, where each operation fails as given: the database
after it, and its result unless it panics. -/
def BlobStore.runAlone {α : Type} (faults : StoreCall → Option String) :
    BlobStore → CacheAction α → BlobStore × Option α
  | db, .ret a => (db, some a)
  | db, .call op k =>
      runAlone faults (db.answer (faults op) op).2 (k (db.answer (faults op) op).1)
  | db, .panic => (db, none)

namespace BlobStore

variable {α β : Type} {faults : StoreCall → Option String} {db : BlobStore}

/-- The parts of a sequence run one after the other. -/
theorem runAlone_bind (p : CacheAction α) (f : α → CacheAction β) :
    db.runAlone faults (p >>= f)
      = match db.runAlone faults p with
        | (db', some a) => db'.runAlone faults (f a)
        | (db', none) => (db', none) := by
  show db.runAlone faults (p.bind f) = _
  induction p generalizing db with
  | ret a => rfl
  | panic => rfl
  | call op k ih => exact ih _

/-- An operation alone, with its error as a cache error. -/
theorem runAlone_cacheCall (op : StoreCall) (f : ZingResult op.Val → CacheAction α) :
    db.runAlone faults (cacheCall op >>= f)
      = match faults op with
        | some e => db.runAlone faults (f (.error (.cache e)))
        | none => (db.perform op).2.runAlone faults (f (.ok (db.perform op).1)) := by
  show (db.answer (faults op) op).2.runAlone faults
    (f (Except.mapError .cache (db.answer (faults op) op).1)) = _
  cases faults op <;> rfl

end BlobStore

/-! ### Collecting -/

/-- The candidates among some blobs: those that are not pinned, with their sizes. -/
def BlobStore.candidates (db : BlobStore) (ids : List String) : List (String × ℕ) :=
  (ids.filter fun id => id ∉ db.pins).map fun id => (id, db.weight id)

/-- No check of some blobs fails. -/
def Checked (faults : StoreCall → Option String) (db : BlobStore) (ids : List String) : Prop :=
  ∀ id ∈ ids, faults (.isPinned id) = none ∧ (id ∉ db.pins → faults (.blobSize id) = none)

variable {faults : StoreCall → Option String} {db : BlobStore}

theorem checked_cons {id : String} {rest : List String} :
    Checked faults db (id :: rest) ↔
      (faults (.isPinned id) = none ∧ (id ∉ db.pins → faults (.blobSize id) = none)) ∧
        Checked faults db rest := by
  simp [Checked]

variable (faults) in
/-- Collecting ends with the candidates, or with an error when a check fails. -/
theorem runAlone_collectCandidates {ids : List String} (hthere : ∀ id ∈ ids, (db.get id).isSome)
    (candidates : List (String × ℕ)) :
    (Checked faults db ids ∧
      db.runAlone faults (EvictionManager.collectCandidates ids candidates)
        = (db, some (.ok (candidates ++ db.candidates ids)))) ∨
    (¬ Checked faults db ids ∧
      ∃ e, db.runAlone faults (EvictionManager.collectCandidates ids candidates)
        = (db, some (.error e))) := by
  induction ids generalizing candidates with
  | nil =>
      refine .inl ⟨by simp [Checked], ?_⟩
      rw [BlobStore.candidates, List.filter_nil, List.map_nil, List.append_nil]
      rfl
  | cons id rest ih =>
      have hrest := ih fun id' hid' => hthere id' (List.mem_cons_of_mem _ hid')
      obtain ⟨data, hdata⟩ := Option.isSome_iff_exists.mp (hthere id List.mem_cons_self)
      have hsize : db.blobSize id = some (db.weight id) := by
        simp [BlobStore.weight, BlobStore.blobSize, hdata]
      rw [checked_cons]
      have hstep : db.runAlone faults (EvictionManager.collectCandidates (id :: rest) candidates)
          = _ := BlobStore.runAlone_cacheCall (.isPinned id) _
      rw [hstep]
      cases hpinnedFault : faults (.isPinned id) with
      | some e => exact .inr ⟨fun hchecked => by simp at hchecked, _, rfl⟩
      | none =>
          by_cases hid : id ∈ db.pins
          · -- a pinned blob is passed over
            have hcandidates : db.candidates (id :: rest) = db.candidates rest := by
              simp [BlobStore.candidates, hid]
            have hpinned : (db.perform (.isPinned id)).1 = true := decide_eq_true hid
            simp only [hpinned, hcandidates, hid, not_true_eq_false, false_implies, and_true,
              true_and]
            exact hrest candidates
          · have hcandidates : db.candidates (id :: rest)
                = (id, db.weight id) :: db.candidates rest := by
              simp [BlobStore.candidates, hid]
            have hpinned : (db.perform (.isPinned id)).1 = false := decide_eq_false hid
            have hnext : ∀ f : ZingResult (Option ℕ) → CacheAction (ZingResult (List (String × ℕ))),
                db.runAlone faults (cacheCall (.blobSize id) >>= f) = _ :=
              fun f => BlobStore.runAlone_cacheCall (.blobSize id) f
            simp only [hpinned, hcandidates, hid, not_false_eq_true, forall_const, true_and]
            show _ ∧ db.runAlone faults (cacheCall (.blobSize id) >>= _) = _ ∨
              _ ∧ ∃ e, db.runAlone faults (cacheCall (.blobSize id) >>= _) = _
            simp only [hnext]
            cases hsizeFault : faults (.blobSize id) with
            | some e => exact .inr ⟨fun hchecked => by simp at hchecked, _, rfl⟩
            | none =>
                have hread : (db.perform (.blobSize id)).1 = some (db.weight id) := hsize
                simp only [hread, true_and]
                rw [List.append_cons candidates (id, db.weight id) (db.candidates rest)]
                exact hrest _

/-! ### Deleting -/

/-- The deletions get to a blob: the candidates before it do not make enough room, and no
deletion up to its own fails. -/
def Reached (budget : ℕ) (faults : StoreCall → Option String) (left : ℕ)
    (candidates : List (String × ℕ)) (key : String) : Prop :=
  ∃ before size after, candidates = before ++ (key, size) :: after ∧
    budget + sizes before < left ∧
    faults (.delete key) = none ∧ ∀ candidate ∈ before, faults (.delete candidate.1) = none

theorem not_reached_of_le {budget left : ℕ} {candidates : List (String × ℕ)} {key : String}
    (hle : left ≤ budget) : ¬ Reached budget faults left candidates key := by
  rintro ⟨before, size, after, -, hlt, -⟩
  omega

theorem not_reached_of_fault {budget left size : ℕ} {rest : List (String × ℕ)}
    {id key : String} (hfault : faults (.delete id) ≠ none) :
    ¬ Reached budget faults left ((id, size) :: rest) key := by
  rintro ⟨_ | ⟨c, before⟩, size', after, heq, -, hkey, hbefore⟩
  · obtain ⟨⟨⟩, -⟩ := List.cons.inj heq
    exact hfault hkey
  · obtain ⟨rfl, -⟩ := List.cons.inj heq
    exact hfault (hbefore _ List.mem_cons_self)

/-- A deletion that succeeds leaves the rest of the candidates with less to go. -/
theorem reached_cons {budget left size : ℕ} {rest : List (String × ℕ)} {id key : String}
    (hfault : faults (.delete id) = none) (hlt : budget < left) (hsize : size ≤ left) :
    Reached budget faults left ((id, size) :: rest) key ↔
      key = id ∨ Reached budget faults (left - size) rest key := by
  constructor
  · rintro ⟨_ | ⟨c, before⟩, size', after, heq, hroom, hkey, hbefore⟩
    · obtain ⟨⟨⟩, -⟩ := List.cons.inj heq
      exact .inl rfl
    · obtain ⟨rfl, rfl⟩ := List.cons.inj heq
      rw [sizes_cons] at hroom
      exact .inr ⟨before, size', after, rfl, by omega, hkey,
        fun c hc => hbefore c (List.mem_cons_of_mem _ hc)⟩
  · rintro (rfl | ⟨before, size', after, rfl, hroom, hkey, hbefore⟩)
    · exact ⟨[], size, rest, rfl, hlt, hfault, by simp⟩
    · refine ⟨(id, size) :: before, size', after, rfl, ?_, hkey, ?_⟩
      · rw [sizes_cons]
        omega
      · rintro c (_ | ⟨_, hc⟩)
        · exact hfault
        · exact hbefore c hc

/-- One deletion, of a candidate that fits the total. -/
theorem runAlone_deleteCandidates_cons (self : EvictionManager) (overflowChecks : Bool)
    {left size : ℕ} {rest : List (String × ℕ)} {id : String} (hlt : self.budgetBytes < left)
    (hsize : size ≤ left) :
    db.runAlone faults (self.deleteCandidates overflowChecks left ((id, size) :: rest))
      = match faults (.delete id) with
        | some e => (db, some (.error (.cache e)))
        | none =>
            (db.delete id).runAlone faults
              (self.deleteCandidates overflowChecks (left - size) rest) := by
  have hsub : EvictionManager.subU64 overflowChecks left size = some (left - size) :=
    if_pos hsize
  have hstep : ∀ f, db.runAlone faults (cacheCall (.delete id) >>= f) = _ :=
    fun f : ZingResult Unit → CacheAction (ZingResult Unit) =>
      BlobStore.runAlone_cacheCall (.delete id) f
  rw [EvictionManager.deleteCandidates, if_neg (Nat.not_le.mpr hlt)]
  refine (hstep _).trans ?_
  cases faults (.delete id) with
  | some e => rfl
  | none =>
      dsimp only
      rw [hsub]
      rfl

variable (faults) in
/-- Deleting candidates whose sizes are within the total: there is no panic, and the blobs
reached are gone, while all others are as before. -/
theorem runAlone_deleteCandidates (self : EvictionManager) (overflowChecks : Bool) {left : ℕ}
    {candidates : List (String × ℕ)} (hsum : sizes candidates ≤ left) :
    (db.runAlone faults (self.deleteCandidates overflowChecks left candidates)).2 ≠ none ∧
    ∀ key, (Reached self.budgetBytes faults left candidates key →
        (db.runAlone faults (self.deleteCandidates overflowChecks left candidates)).1.get key
          = none) ∧
      (¬ Reached self.budgetBytes faults left candidates key →
        (db.runAlone faults (self.deleteCandidates overflowChecks left candidates)).1.get key
          = db.get key) := by
  induction candidates generalizing db left with
  | nil =>
      refine ⟨Option.some_ne_none _, fun key => ⟨?_, fun _ => rfl⟩⟩
      rintro ⟨before, size, after, heq, -⟩
      exact absurd heq.symm (by simp)
  | cons candidate rest ih =>
      obtain ⟨id, size⟩ := candidate
      rw [sizes_cons] at hsum
      have hfits : size ≤ left := (Nat.le_add_right _ _).trans hsum
      rcases Nat.lt_or_ge self.budgetBytes left with hlt | hle
      · rw [runAlone_deleteCandidates_cons self overflowChecks hlt hfits]
        cases hfault : faults (.delete id) with
        | some e =>
            have hnot : ∀ key, ¬ Reached self.budgetBytes faults left ((id, size) :: rest) key :=
              fun key => not_reached_of_fault (by simp [hfault])
            exact ⟨Option.some_ne_none _, fun key =>
              ⟨fun hreached => absurd hreached (hnot key), fun _ => rfl⟩⟩
        | none =>
            obtain ⟨hends, hget⟩ := ih (Nat.le_sub_of_add_le' hsum)
            refine ⟨hends, fun key => ?_⟩
            obtain ⟨hgone, hkept⟩ := hget key
            rw [reached_cons hfault hlt hfits]
            by_cases hreached : Reached self.budgetBytes faults (left - size) rest key
            · exact ⟨fun _ => hgone hreached, fun hnot => absurd (.inr hreached) hnot⟩
            · refine ⟨fun hkey => ?_, fun hnot => ?_⟩
              · obtain rfl := hkey.resolve_right hreached
                exact (hkept hreached).trans BlobStore.get_delete
              · have hne : key ≠ id := fun heq => hnot (.inl heq)
                exact (hkept hreached).trans (BlobStore.get_delete_of_ne hne)
      · rw [EvictionManager.deleteCandidates, if_pos hle]
        exact ⟨Option.some_ne_none _, fun key =>
          ⟨fun hreached => absurd hreached (not_reached_of_le hle), fun _ => rfl⟩⟩

/-! ### The whole eviction -/

/-- The bytes of the unpinned blobs before a key. -/
def BlobStore.weightBefore (db : BlobStore) (key : String) : ℕ :=
  ((db.listBlobIds.filter fun id => id < key ∧ id ∉ db.pins).map db.weight).sum

/-- An eviction alone deletes the blob of a key: it is not pinned, without the unpinned blobs
before it the database is still over the budget, and no operation up to its deletion fails. -/
structure EvictionManager.Evicts (manager : EvictionManager) (faults : StoreCall → Option String)
    (db : BlobStore) (key : String) : Prop where
  unpinned : key ∉ db.pins
  overBudget : manager.budgetBytes + db.weightBefore key < db.totalSize
  counted : faults .totalSize = none
  listed : faults .listBlobIds = none
  checked : Checked faults db db.listBlobIds
  deleted : ∀ id ∈ db.listBlobIds, id ∉ db.pins → id ≤ key → faults (.delete id) = none

theorem sizes_map_weight (ids : List String) :
    sizes (ids.map fun id => (id, db.weight id)) = (ids.map db.weight).sum := by
  rw [sizes, List.map_map]
  rfl

/-- The candidates are part of the database. -/
theorem sizes_candidates_le : sizes (db.candidates db.listBlobIds) ≤ db.totalSize := by
  rw [BlobStore.candidates, sizes_map_weight]
  exact (List.filter_sublist.map db.weight).sum_le_sum fun _ _ => Nat.zero_le _

/-- In a sorted list without duplicates the elements before an element are the smaller ones. -/
theorem eq_filter_lt {before after : List String} {key : String}
    (hsorted : (before ++ key :: after).Pairwise (· < ·)) :
    before = (before ++ key :: after).filter (· < key) := by
  obtain ⟨-, hafter, hbefore⟩ := List.pairwise_append.mp hsorted
  have hlt : before.filter (· < key) = before :=
    List.filter_eq_self.mpr fun id hid => decide_eq_true (hbefore id hid key List.mem_cons_self)
  have hnone : (key :: after).filter (· < key) = [] := by
    refine List.filter_eq_nil_iff.mpr fun id hid => ?_
    rw [decide_eq_true_eq, not_lt]
    rcases List.mem_cons.mp hid with rfl | hid
    · exact le_rfl
    · exact le_of_lt (List.rel_of_pairwise_cons hafter hid)
  rw [List.filter_append, hlt, hnone, List.append_nil]

/-- The deletions get to the blobs that are evicted. -/
theorem reached_candidates_iff {budget : ℕ} {key : String} :
    Reached budget faults db.totalSize (db.candidates db.listBlobIds) key ↔
      key ∈ db.listBlobIds ∧ key ∉ db.pins ∧ budget + db.weightBefore key < db.totalSize ∧
        ∀ id ∈ db.listBlobIds, id ∉ db.pins → id ≤ key → faults (.delete id) = none := by
  set unpinned := db.listBlobIds.filter fun id => id ∉ db.pins with hunpinned
  have hmem : ∀ id, id ∈ unpinned ↔ id ∈ db.listBlobIds ∧ id ∉ db.pins := by
    simp [hunpinned]
  have hsorted : unpinned.Pairwise (· < ·) := by
    have hboth := db.listBlobIds_sorted.and db.listBlobIds_nodup
    exact (hboth.imp fun ⟨hle, hne⟩ => lt_of_le_of_ne hle hne).filter _
  have hbefore : unpinned.filter (· < key)
      = db.listBlobIds.filter fun id => id < key ∧ id ∉ db.pins := by
    rw [hunpinned, List.filter_filter]
    exact List.filter_congr fun id _ => by simp
  have hcandidates : db.candidates db.listBlobIds
      = unpinned.map fun id => (id, db.weight id) := rfl
  have hsplits : ∀ ids rest, unpinned = ids ++ key :: rest →
      (ids.map db.weight).sum = db.weightBefore key ∧
        ∀ id, id ∈ ids ↔ (id ∈ db.listBlobIds ∧ id ∉ db.pins) ∧ id < key := by
    intro ids rest hsplit
    have hids : ids = unpinned.filter (· < key) := by
      rw [hsplit]
      exact eq_filter_lt (hsplit ▸ hsorted)
    refine ⟨by rw [hids, hbefore, BlobStore.weightBefore], fun id => ?_⟩
    rw [hids, List.mem_filter, hmem, decide_eq_true_eq]
  constructor
  · rintro ⟨before, size, after, heq, hroom, hkey, hfaults⟩
    rw [hcandidates, List.map_eq_append_iff] at heq
    obtain ⟨ids, tail, hsplit, rfl, htail⟩ := heq
    obtain ⟨key', rest, rfl, ⟨⟩, rfl⟩ := List.map_eq_cons_iff.mp htail
    obtain ⟨hweight, hids⟩ := hsplits ids rest hsplit
    have hin := (hmem key).mp (hsplit ▸ List.mem_append_right ids List.mem_cons_self)
    rw [sizes_map_weight, hweight] at hroom
    refine ⟨hin.1, hin.2, hroom, fun id hid hunpinned hle => ?_⟩
    rcases eq_or_lt_of_le hle with rfl | hlt
    · exact hkey
    · exact hfaults _ (List.mem_map_of_mem ((hids id).mpr ⟨⟨hid, hunpinned⟩, hlt⟩))
  · rintro ⟨hkey, hpin, hroom, hdeleted⟩
    obtain ⟨ids, rest, hsplit⟩ := List.append_of_mem ((hmem key).mpr ⟨hkey, hpin⟩)
    obtain ⟨hweight, hids⟩ := hsplits ids rest hsplit
    refine ⟨ids.map fun id => (id, db.weight id), db.weight key,
      rest.map fun id => (id, db.weight id), ?_, ?_, hdeleted key hkey hpin le_rfl, ?_⟩
    · rw [hcandidates, hsplit, List.map_append, List.map_cons]
    · rwa [sizes_map_weight, hweight]
    · intro candidate hcandidate
      obtain ⟨id, hid, rfl⟩ := List.mem_map.mp hcandidate
      obtain ⟨⟨hin, hunpinned⟩, hlt⟩ := (hids id).mp hid
      exact hdeleted id hin hunpinned hlt.le

/-- The outcome of an eviction alone: it returns, the blobs it evicts are gone, and all others
are as before. -/
structure EvictionManager.Leaves (manager : EvictionManager) (faults : StoreCall → Option String)
    (db : BlobStore) (outcome : BlobStore × Option (ZingResult Unit)) : Prop where
  returns : outcome.2 ≠ none
  gone : ∀ key, manager.Evicts faults db key → outcome.1.get key = none
  kept : ∀ key, ¬ manager.Evicts faults db key → outcome.1.get key = db.get key

/-- An eviction of nothing. -/
theorem EvictionManager.Leaves.nothing {self : EvictionManager} {r : ZingResult Unit}
    (hnone : ∀ key, ¬ self.Evicts faults db key) : self.Leaves faults db (db, some r) :=
  ⟨Option.some_ne_none r, fun key hevicts => absurd hevicts (hnone key), fun _ _ => rfl⟩

/-- One operation of an eviction. -/
theorem EvictionManager.Leaves.cacheCall {self : EvictionManager} {op : StoreCall}
    {f : ZingResult op.Val → CacheAction (ZingResult Unit)}
    (hfails : ∀ e, faults op = some e →
      self.Leaves faults db (db.runAlone faults (f (.error (.cache e)))))
    (hworks : faults op = none →
      self.Leaves faults db ((db.perform op).2.runAlone faults (f (.ok (db.perform op).1)))) :
    self.Leaves faults db (db.runAlone faults (cacheCall op >>= f)) := by
  rw [BlobStore.runAlone_cacheCall]
  cases hfault : faults op with
  | some e => exact hfails e hfault
  | none => exact hworks hfault

/-- **What an eviction alone does.** -/
theorem EvictionManager.leaves_run (self : EvictionManager) (overflowChecks : Bool)
    (faults : StoreCall → Option String) (db : BlobStore) :
    self.Leaves faults db (db.runAlone faults (self.run overflowChecks)) := by
  refine .cacheCall (fun e hfault => ?_) fun hcounted => ?_
  · exact .nothing fun key hevicts => by simp [hevicts.counted] at hfault
  show self.Leaves faults db (db.runAlone faults (if db.totalSize ≤ self.budgetBytes then _ else _))
  split
  · rename_i hle
    refine .nothing fun key hevicts => ?_
    have := hevicts.overBudget
    omega
  refine .cacheCall (fun e hfault => ?_) fun hlisted => ?_
  · exact .nothing fun key hevicts => by simp [hevicts.listed] at hfault
  show self.Leaves faults db (db.runAlone faults (collectCandidates db.listBlobIds [] >>= _))
  rw [BlobStore.runAlone_bind]
  have hthere : ∀ id ∈ db.listBlobIds, (db.get id).isSome :=
    fun id hid => BlobStore.mem_listBlobIds.mp hid
  rcases runAlone_collectCandidates faults hthere [] with
    ⟨hchecked, hcollected⟩ | ⟨hunchecked, e, hcollected⟩
  · rw [hcollected]
    obtain ⟨hreturns, hget⟩ := runAlone_deleteCandidates faults self overflowChecks
      sizes_candidates_le
    refine ⟨hreturns, fun key hevicts => ?_, fun key hnot => (hget key).2 fun hreached => hnot ?_⟩
    · by_cases hreached : Reached self.budgetBytes faults db.totalSize
          (db.candidates db.listBlobIds) key
      · exact (hget key).1 hreached
      · -- there is no blob with this key
        have hmissing : key ∉ db.listBlobIds := fun hkey =>
          hreached (reached_candidates_iff.mpr
            ⟨hkey, hevicts.unpinned, hevicts.overBudget, hevicts.deleted⟩)
        rw [BlobStore.mem_listBlobIds, Option.not_isSome_iff_eq_none] at hmissing
        exact ((hget key).2 hreached).trans hmissing
    · obtain ⟨-, hunpinned, hover, hdeleted⟩ := reached_candidates_iff.mp hreached
      exact ⟨hunpinned, hover, hcounted, hlisted, hchecked, hdeleted⟩
  · rw [hcollected]
    exact .nothing fun key hevicts => hunchecked hevicts.checked

end ZingCdn
