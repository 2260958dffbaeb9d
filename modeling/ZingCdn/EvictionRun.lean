import ZingCdn.EvictionAlone

/-!
# A Whole Eviction Run

`EvictionManager::run` with no other task and no failing operation, followed deletion by
deletion. The running total of the loop is the weight of what is left in the store
(`totalSize_deleteAll`), so the loop stops at the shortest prefix of the unpinned blobs, in
the order of their keys, without which the store is within the budget.

## Main results

* `runAlone_run`: the store after the run is the store without that prefix, and the run
  returns `Ok`.
* `eviction_run`: what that means for the blobs, the pins and the metadata, and for a second
  run.
-/

namespace ZingCdn

namespace BlobStore

/-- The unpinned blobs, in the order of their keys: the candidates of an eviction. -/
def unpinned (db : BlobStore) : List String := db.listBlobIds.filter fun id => id ∉ db.pins

/-- The store after some deletions. -/
def deleteAll (db : BlobStore) : List String → BlobStore
  | [] => db
  | id :: rest => (db.delete id).deleteAll rest

variable {db : BlobStore} {id key : String} {ids : List String}

/-- No deletes. -/
@[simp] theorem deleteAll_nil : db.deleteAll [] = db := rfl

/-- One delete, and the others. -/
@[simp] theorem deleteAll_cons : db.deleteAll (id :: ids) = (db.delete id).deleteAll ids := rfl

/-- Deletions take exactly the named blobs. -/
theorem get_deleteAll (db : BlobStore) (ids : List String) (key : String) :
    (db.deleteAll ids).get key = if key ∈ ids then none else db.get key := by
  induction ids generalizing db with
  | nil => rfl
  | cons id rest ih =>
      rw [deleteAll_cons, ih]
      by_cases hrest : key ∈ rest
      · rw [if_pos hrest, if_pos (List.mem_cons_of_mem _ hrest)]
      · rw [if_neg hrest]
        by_cases hid : key = id
        · rw [hid, get_delete, if_pos List.mem_cons_self]
        · rw [get_delete_of_ne hid, if_neg fun hin => hrest ((List.mem_cons.mp hin).resolve_left hid)]

/-- Deletes leave the pins. -/
@[simp] theorem deleteAll_pins (db : BlobStore) (ids : List String) :
    (db.deleteAll ids).pins = db.pins := by
  induction ids generalizing db with
  | nil => rfl
  | cons id rest ih => exact ih (db.delete id)

/-- And the metadata. -/
@[simp] theorem deleteAll_metadata (db : BlobStore) (ids : List String) :
    (db.deleteAll ids).metadata = db.metadata := by
  induction ids generalizing db with
  | nil => rfl
  | cons id rest ih => exact ih (db.delete id)

/-- The first key weighs, and the others. -/
@[simp] theorem weightOf_cons : db.weightOf (id :: ids) = db.weight id + db.weightOf ids :=
  List.sum_cons

/-- Blobs other than the deleted one keep their weight. -/
theorem weightOf_delete (hid : id ∉ ids) : (db.delete id).weightOf ids = db.weightOf ids :=
  congrArg List.sum (List.map_congr_left fun _ hkey =>
    weight_delete_of_ne fun heq => hid (heq ▸ hkey))

/-- **The running total is the true one**: distinct deletions take their weights off it. -/
theorem totalSize_deleteAll (db : BlobStore) (hnd : ids.Nodup) :
    (db.deleteAll ids).totalSize + db.weightOf ids = db.totalSize := by
  induction ids generalizing db with
  | nil => rfl
  | cons id rest ih =>
      obtain ⟨hid, hrest⟩ := List.nodup_cons.mp hnd
      have hdeleted := totalSize_delete db id
      have hothers := ih (db.delete id) hrest
      rw [weightOf_delete hid] at hothers
      rw [deleteAll_cons, weightOf_cons]
      omega

/-- No key is a candidate twice. -/
theorem unpinned_nodup : db.unpinned.Nodup := listBlobIds_nodup.filter _

/-- The candidates are the stored keys that are not pinned. -/
theorem mem_unpinned : key ∈ db.unpinned ↔ (db.get key).isSome ∧ key ∉ db.pins := by
  rw [unpinned, List.mem_filter, mem_listBlobIds, decide_eq_true_eq]

end BlobStore

/-! ### The loop -/

/-- No operation fails. -/
def faultless : StoreCall → Option String := fun _ => none

variable {db : BlobStore}

/-- The shortest prefix of some blobs without which a total is within the budget: none is
shorter, and it is all of them when none suffices. -/
structure ShortestPrefix (budget total : ℕ) (db : BlobStore) (ids : List String) (k : ℕ) : Prop where
  le_length : k ≤ ids.length
  minimal : ∀ j < k, budget + db.weightOf (ids.take j) < total
  enough : total ≤ budget + db.weightOf (ids.take k) ∨ k = ids.length

/-- One more blob goes when the total is over the budget. -/
theorem ShortestPrefix.cons {budget total : ℕ} {id : String} {rest : List String} {k : ℕ}
    (hlt : budget < total) (hfits : db.weight id ≤ total) (hid : id ∉ rest)
    (h : ShortestPrefix budget (total - db.weight id) (db.delete id) rest k) :
    ShortestPrefix budget total db (id :: rest) (k + 1) := by
  have hweight : ∀ j, (db.delete id).weightOf (rest.take j) = db.weightOf (rest.take j) :=
    fun j => BlobStore.weightOf_delete fun hin => hid (List.mem_of_mem_take hin)
  refine ⟨Nat.succ_le_succ h.le_length, fun j hj => ?_, ?_⟩
  · cases j with
    | zero => exact hlt
    | succ j =>
        have hmin := h.minimal j (Nat.lt_of_succ_lt_succ hj)
        rw [hweight] at hmin
        rw [List.take_succ_cons, BlobStore.weightOf_cons]
        omega
  · rw [List.take_succ_cons, BlobStore.weightOf_cons, List.length_cons]
    rcases h.enough with hroom | hall
    · rw [hweight] at hroom
      exact .inl (by omega)
    · exact .inr (by omega)

/-- **The loop deletes the shortest prefix.** The candidates' sizes are those in the store, and
they are within the total, so the subtraction never underflows and the result is the same with
and without overflow checks. -/
theorem exists_shortestPrefix (manager : EvictionManager) (overflowChecks : Bool) {total : ℕ}
    {ids : List String} (hnd : ids.Nodup) (hfits : db.weightOf ids ≤ total) :
    ∃ k, ShortestPrefix manager.budgetBytes total db ids k ∧
      db.runAlone faultless (manager.deleteCandidates overflowChecks total
          (ids.map fun id => (id, db.weight id)))
        = (db.deleteAll (ids.take k), some (.ok ())) := by
  induction ids generalizing db total with
  | nil => exact ⟨0, ⟨le_rfl, fun j hj => absurd hj (Nat.not_lt_zero j), .inr rfl⟩, rfl⟩
  | cons id rest ih =>
      obtain ⟨hid, hrest⟩ := List.nodup_cons.mp hnd
      rw [BlobStore.weightOf_cons] at hfits
      have hsize : db.weight id ≤ total := by omega
      rcases Nat.lt_or_ge manager.budgetBytes total with hlt | hle
      · -- over the budget: the blob goes, and the sizes of the rest stay
        have hsizes : (rest.map fun key => (key, db.weight key))
            = rest.map fun key => (key, (db.delete id).weight key) := by
          refine List.map_congr_left fun key hkey => ?_
          have hne : key ≠ id := fun heq => hid (heq ▸ hkey)
          rw [BlobStore.weight_delete_of_ne hne]
        have hroom : (db.delete id).weightOf rest ≤ total - db.weight id := by
          rw [BlobStore.weightOf_delete hid]
          omega
        obtain ⟨k, hshort, hrun⟩ := ih hrest hroom
        refine ⟨k + 1, hshort.cons hlt hsize hid, ?_⟩
        rw [List.map_cons, runAlone_deleteCandidates_cons manager overflowChecks hlt hsize, hsizes]
        exact hrun
      · refine ⟨0, ⟨Nat.zero_le _, fun j hj => absurd hj (Nat.not_lt_zero j), .inl hle⟩, ?_⟩
        rw [List.map_cons, EvictionManager.deleteCandidates, if_pos hle]
        rfl

/-! ### The whole run -/

/-- **The whole run**: it returns `Ok`, and the store is without the shortest prefix of the
unpinned blobs. -/
theorem runAlone_run (manager : EvictionManager) (overflowChecks : Bool) (db : BlobStore) :
    ∃ k, ShortestPrefix manager.budgetBytes db.totalSize db db.unpinned k ∧
      db.runAlone faultless (manager.run overflowChecks)
        = (db.deleteAll (db.unpinned.take k), some (.ok ())) := by
  have hfits : db.weightOf db.unpinned ≤ db.totalSize :=
    (List.filter_sublist.map db.weight).sum_le_sum fun _ _ => Nat.zero_le _
  have hcounted : db.runAlone faultless (manager.run overflowChecks) = db.runAlone faultless
      (if db.totalSize ≤ manager.budgetBytes then _ else _) :=
    BlobStore.runAlone_cacheCall .totalSize _
  rw [hcounted]
  rcases Nat.lt_or_ge manager.budgetBytes db.totalSize with hlt | hle
  · obtain ⟨k, hshort, hrun⟩ :=
      exists_shortestPrefix manager overflowChecks BlobStore.unpinned_nodup hfits
    refine ⟨k, hshort, ?_⟩
    rw [if_neg (Nat.not_le.mpr hlt)]
    have hthere : ∀ id ∈ db.listBlobIds, (db.get id).isSome :=
      fun id hid => BlobStore.mem_listBlobIds.mp hid
    have hchecked : Checked faultless db db.listBlobIds := fun _ _ => ⟨rfl, fun _ => rfl⟩
    refine (BlobStore.runAlone_cacheCall .listBlobIds _).trans ?_
    show db.runAlone faultless (EvictionManager.collectCandidates db.listBlobIds [] >>= _) = _
    rw [BlobStore.runAlone_bind]
    rcases runAlone_collectCandidates faultless hthere [] with ⟨-, hcollected⟩ | ⟨hnot, -⟩
    · rw [hcollected]
      exact hrun
    · exact absurd hchecked hnot
  · refine ⟨0, ⟨Nat.zero_le _, fun j hj => absurd hj (Nat.not_lt_zero j), .inl hle⟩, ?_⟩
    rw [if_pos hle]
    rfl

/-- A total within the budget needs no deletion. -/
theorem ShortestPrefix.eq_zero {budget total k : ℕ} {ids : List String}
    (h : ShortestPrefix budget total db ids k) (hle : total ≤ budget) : k = 0 := by
  rcases Nat.eq_zero_or_pos k with h0 | hpos
  · exact h0
  · have := h.minimal 0 hpos
    omega

/-- **An eviction run, alone.** For blobs whose sizes sum up to a `u64`, with and without
overflow checks, `total_size` and `run` return; within the budget nothing is deleted; otherwise
exactly the shortest prefix of the unpinned blobs, in the order of their keys, that brings the
total to at most the budget, or all of them when none does. The other blobs, the pins and the
metadata are unchanged, the total goes down by what was deleted, afterwards it is within the
budget or only pinned blobs are left, and a second run changes nothing. -/
theorem eviction_run (manager : EvictionManager) (overflowChecks : Bool) (db : BlobStore)
    (hfit : db.totalSize < 18446744073709551616) :
    db.sumSizes overflowChecks 0 db.listBlobIds = some db.totalSize ∧
    ∃ k after, db.runAlone faultless (manager.run overflowChecks) = (after, some (.ok ())) ∧
      (db.totalSize ≤ manager.budgetBytes → after = db) ∧
      ShortestPrefix manager.budgetBytes db.totalSize db db.unpinned k ∧
      (∀ key, after.get key = if key ∈ db.unpinned.take k then none else db.get key) ∧
      after.pins = db.pins ∧ (∀ key, after.getMetadata key = db.getMetadata key) ∧
      after.totalSize + db.weightOf (db.unpinned.take k) = db.totalSize ∧
      (after.totalSize ≤ manager.budgetBytes ∨ ∀ id ∈ after.listBlobIds, id ∈ after.pins) ∧
      ∀ checksAgain, after.runAlone faultless (manager.run checksAgain)
        = (after, some (.ok ())) := by
  have hcount : db.sumSizes overflowChecks 0 db.listBlobIds = some (0 + db.totalSize) :=
    BlobStore.sumSizes_eq overflowChecks (by rw [Nat.zero_add]; exact hfit)
  rw [Nat.zero_add] at hcount
  obtain ⟨k, hshort, hrun⟩ := runAlone_run manager overflowChecks db
  have hnd : (db.unpinned.take k).Nodup := BlobStore.unpinned_nodup.sublist (List.take_sublist _ _)
  have htotal := db.totalSize_deleteAll hnd
  -- the budget is met, or every unpinned blob is gone
  have hdone : (db.deleteAll (db.unpinned.take k)).totalSize ≤ manager.budgetBytes ∨
      ∀ id ∈ (db.deleteAll (db.unpinned.take k)).listBlobIds,
        id ∈ (db.deleteAll (db.unpinned.take k)).pins := by
    rcases hshort.enough with hroom | hall
    · exact .inl (by omega)
    · refine .inr fun id hid => ?_
      rw [hall, List.take_length] at hid ⊢
      rw [BlobStore.mem_listBlobIds, BlobStore.get_deleteAll] at hid
      rw [BlobStore.deleteAll_pins]
      split at hid
      · simp at hid
      · rename_i hkept
        by_contra hpin
        exact hkept (BlobStore.mem_unpinned.mpr ⟨hid, hpin⟩)
  refine ⟨hcount, k, _, hrun, fun hle => ?_, hshort, BlobStore.get_deleteAll db _,
    BlobStore.deleteAll_pins db _, fun key => ?_, htotal, hdone, fun checksAgain => ?_⟩
  · rw [hshort.eq_zero hle, List.take_zero, BlobStore.deleteAll_nil]
  · rw [BlobStore.getMetadata, BlobStore.deleteAll_metadata, BlobStore.getMetadata]
  · obtain ⟨k', hshort', hrun'⟩ :=
      runAlone_run manager checksAgain (db.deleteAll (db.unpinned.take k))
    have hnothing : (db.deleteAll (db.unpinned.take k)).unpinned.take k' = [] := by
      rcases hdone with hle | hpinned
      · rw [hshort'.eq_zero hle, List.take_zero]
      · have hnone : (db.deleteAll (db.unpinned.take k)).unpinned = [] :=
          List.filter_eq_nil_iff.mpr fun id hid => by simpa using hpinned id hid
        rw [hnone, List.take_nil]
    rw [hrun', hnothing, BlobStore.deleteAll_nil]

/-- A pinned blob and two others, of three bytes each. -/
def threeBlobs : BlobStore where
  blobs := ((AList.singleton "c" [7, 8, 9]).insert "b" [4, 5, 6]).insert "a" [1, 2, 3]
  pins := {"a"}

/-- Three blobs in a budget for two, one of them pinned. -/
theorem eviction_run_threeBlobs :
    ∃ after, threeBlobs.runAlone faultless (EvictionManager.run ⟨6⟩ true)
        = (after, some (.ok ())) ∧
      after.pins = {"a"} ∧
      after.runAlone faultless (EvictionManager.run ⟨6⟩ true) = (after, some (.ok ())) := by
  obtain ⟨-, _, after, hrun, -, -, -, hpins, -, -, -, hagain⟩ :=
    eviction_run ⟨6⟩ true threeBlobs (by decide)
  exact ⟨after, hrun, hpins, hagain true⟩

end ZingCdn
