import ZingCdn.BlobStore

/-!
# Evictions and Pins

An eviction checks once whether a blob is pinned, when it collects its candidates, and
deletes the candidates later. The pins are kept by read locks on both sides, so a pin may
come between: it returns without an error, and the blob is deleted all the same.

Between the check and the deletion a blob is at risk. As long as no blob is pinned while it
is at risk, no pinned blob is deleted, whatever else happens in between and whatever
operation fails.

## Main results

* `pins_respected`: without a pin of a blob at risk, no eviction deletes a pinned blob.
* `not_pins_respected`: a pin between the check and the deletion does not save the blob.
-/

open Program Program.Prog

namespace ZingCdn

/-! ### Blobs at risk -/

/-- The blobs at risk after one more operation. -/
def StoreCall.atRisk (ids : List String) : (call : StoreCall) → call.Ans → List String
  | .isPinned id, .ok false => id :: ids
  | .delete id, _ => ids.filter (· ≠ id)
  | _, _ => ids

/-- The blobs at risk: those that the eviction has found unpinned and not yet deleted. -/
def atRisk (h : CacheTrace) : List String :=
  h.foldl (fun ids ev => ev.1.atRisk ids ev.2) []

@[simp] theorem atRisk_concat (h : CacheTrace) (ev : Event StoreCall.Ans) :
    atRisk (h ++ [ev]) = ev.1.atRisk (atRisk h) ev.2 := by
  rw [atRisk, List.foldl_append]
  rfl

/-- A pin that comes while the blob is not at risk, or after the eviction; and any other
move. -/
def PinsOffRisk (cfg : EvictionState) : EvictionMove → Prop
  | .other (.pin id) => cfg.Ended ∨ id ∉ atRisk cfg.history
  | _ => True

/-! ### The eviction deletes blobs at risk only -/

/-- A listing names each blob once. -/
def ListsOnce : (call : StoreCall) → call.Ans → Prop
  | .listBlobIds, .ok ids => @List.Nodup String ids
  | _, _ => True

/-- The contract to delete blobs at risk only. -/
def riskContract : Contract StoreCall.Ans where
  rely _ := ListsOnce
  guarantee h call := ∀ id, call = .delete id → id ∈ atRisk h
  mayPanic := True

variable {h : CacheTrace}

/-- The candidates are distinct and at risk, also when the ids still to be checked are
added. -/
structure Risky (h : CacheTrace) (candidates : List (String × ℕ)) (ids : List String) : Prop where
  nodup : (candidates.map Prod.fst ++ ids).Nodup
  risk : ∀ id ∈ candidates.map Prod.fst, id ∈ atRisk h

theorem Risky.mono {h' : CacheTrace} {candidates : List (String × ℕ)} {ids : List String}
    (hr : Risky h candidates ids) (hsub : ∀ id ∈ atRisk h, id ∈ atRisk h') :
    Risky h' candidates ids :=
  ⟨hr.nodup, fun id hid => hsub id (hr.risk id hid)⟩

/-- The next id is not a candidate. -/
theorem Risky.skip {candidates : List (String × ℕ)} {id : String} {rest : List String}
    (hr : Risky h candidates (id :: rest)) : Risky h candidates rest :=
  ⟨hr.nodup.sublist ((List.sublist_cons_self id rest).append_left _), hr.risk⟩

/-- The next id becomes a candidate. -/
theorem Risky.add {candidates : List (String × ℕ)} {id : String} {rest : List String}
    (hr : Risky h candidates (id :: rest)) (hrisk : id ∈ atRisk h) (size : ℕ) :
    Risky h (candidates ++ [(id, size)]) rest := by
  constructor
  · simpa using hr.nodup
  · intro id' hid'
    rw [List.map_append, List.mem_append] at hid'
    rcases hid' with hid' | hid'
    · exact hr.risk id' hid'
    · obtain rfl : id' = id := by simpa using hid'
      exact hrisk

/-- An operation that deletes nothing. -/
theorem riskContract_guarantee {call : StoreCall} (hcall : ∀ id, call ≠ .delete id) :
    riskContract.guarantee h call := fun id heq => absurd heq (hcall id)

/-- The collected candidates are distinct and at risk. -/
theorem collectCandidates_risk {ids : List String} {candidates : List (String × ℕ)}
    (hr : Risky h candidates ids) :
    Meets riskContract h (EvictionManager.collectCandidates ids candidates) fun h' r =>
      ∀ l, r = .ok l → Risky h' l [] := by
  induction ids generalizing h candidates with
  | nil =>
      rintro l ⟨⟩
      exact hr
  | cons id rest ih =>
      refine ⟨riskContract_guarantee (by rintro id ⟨⟩), fun pinned _ => ?_⟩
      rcases pinned with e | - | -
      · rintro l ⟨⟩
      · -- unpinned: the blob is at risk from here on
        have hchecked : Risky (h ++ [⟨.isPinned id, .ok false⟩]) candidates (id :: rest) :=
          hr.mono fun id' hid' => by
            rw [atRisk_concat]
            exact List.mem_cons_of_mem _ hid'
        have hrisk : id ∈ atRisk (h ++ [⟨.isPinned id, .ok false⟩]) := by
          rw [atRisk_concat]
          exact List.mem_cons_self
        refine ⟨riskContract_guarantee (by rintro id ⟨⟩), fun size _ => ?_⟩
        have hkept : ∀ id' ∈ atRisk (h ++ [⟨.isPinned id, .ok false⟩]),
            id' ∈ atRisk (h ++ [⟨.isPinned id, .ok false⟩] ++ [⟨.blobSize id, size⟩]) := by
          intro id' hid'
          rw [atRisk_concat]
          exact hid'
        rcases size with e | - | size
        · rintro l ⟨⟩
        · rintro l ⟨⟩
        · exact ih ((hchecked.mono hkept).add (hkept id hrisk) size)
      · refine ih (hr.skip.mono fun id' hid' => ?_)
        rw [atRisk_concat]
        exact hid'

/-- The candidates are deleted while they are at risk. -/
theorem deleteCandidates_risk (self : EvictionManager) (overflowChecks : Bool) {total : ℕ}
    {candidates : List (String × ℕ)} (hr : Risky h candidates []) :
    Meets riskContract h (self.deleteCandidates overflowChecks total candidates)
      fun _ _ => True := by
  induction candidates generalizing h total with
  | nil => trivial
  | cons candidate rest ih =>
      obtain ⟨id, size⟩ := candidate
      rw [EvictionManager.deleteCandidates]
      split
      · trivial
      refine ⟨?_, fun deleted _ => ?_⟩
      · rintro _ ⟨⟩
        exact hr.risk id List.mem_cons_self
      have hnodup := hr.nodup
      rw [List.append_nil, List.map_cons, List.nodup_cons] at hnodup
      have hrest : Risky (h ++ [⟨.delete id, deleted⟩]) rest [] := by
        refine ⟨by rw [List.append_nil]; exact hnodup.2, fun id' hid' => ?_⟩
        rw [atRisk_concat]
        refine List.mem_filter.mpr ⟨hr.risk id' (List.mem_cons_of_mem _ hid'), ?_⟩
        rw [decide_eq_true_eq]
        rintro rfl
        exact hnodup.1 hid'
      rcases deleted with e | _
      · trivial
      · cases EvictionManager.subU64 overflowChecks total size with
        | none => trivial
        | some total => exact ih hrest

/-- **An eviction deletes blobs at risk only.** -/
theorem run_risk (self : EvictionManager) (overflowChecks : Bool) :
    Meets riskContract [] (self.run overflowChecks) fun _ _ => True := by
  refine ⟨riskContract_guarantee (by rintro id ⟨⟩), fun total _ => ?_⟩
  rcases total with e | (total : ℕ)
  · trivial
  refine Meets.ite (fun hwithin => ?_) fun hover => ?_
  · trivial
  refine ⟨riskContract_guarantee (by rintro id ⟨⟩), fun ids hids => ?_⟩
  rcases ids with e | ids
  · trivial
  have hnone : ∀ h', Risky h' [] ids := fun h' => ⟨hids, by simp⟩
  refine (collectCandidates_risk (hnone _)).bind ?_
  rintro h' (e | candidates) - hr
  · trivial
  · exact deleteCandidates_risk self overflowChecks (hr candidates rfl)

/-! ### The pins are respected -/

/-- No blob at risk is pinned. -/
def RiskUnpinned (h : CacheTrace) (db : BlobStore) : Prop := ∀ id ∈ atRisk h, id ∉ db.pins

/-- An operation of the eviction keeps the blobs at risk unpinned, and lists each blob
once. -/
theorem RiskUnpinned.answer {db : BlobStore} (hrisk : RiskUnpinned h db) (fault : Option String)
    (call : StoreCall) :
    ListsOnce call (db.answer fault call).1 ∧
      RiskUnpinned (h ++ [⟨call, (db.answer fault call).1⟩]) (db.answer fault call).2 := by
  rw [RiskUnpinned, atRisk_concat]
  cases fault with
  | some e =>
      cases call with
      | delete id => exact ⟨trivial, fun id' hid' => hrisk id' (List.mem_of_mem_filter hid')⟩
      | _ => exact ⟨trivial, hrisk⟩
  | none =>
      cases call with
      | listBlobIds => exact ⟨BlobStore.listBlobIds_nodup, hrisk⟩
      | isPinned id =>
          refine ⟨trivial, fun id' hid' hpinned => ?_⟩
          by_cases hid : id ∈ db.pins
          · have hkept : id' ∈ atRisk h := by
              simpa [BlobStore.answer, BlobStore.perform, BlobStore.isPinned, hid,
                StoreCall.atRisk] using hid'
            exact hrisk id' hkept hpinned
          · have hadded : id' = id ∨ id' ∈ atRisk h := by
              simpa [BlobStore.answer, BlobStore.perform, BlobStore.isPinned, hid,
                StoreCall.atRisk] using hid'
            rcases hadded with rfl | hkept
            · exact hid hpinned
            · exact hrisk id' hkept hpinned
      | delete id => exact ⟨trivial, fun id' hid' => hrisk id' (List.mem_of_mem_filter hid')⟩
      | _ => exact ⟨trivial, hrisk⟩

/-- A write of another task that pins no blob at risk keeps the blobs at risk unpinned. -/
theorem RiskUnpinned.write {db : BlobStore} (hrisk : RiskUnpinned h db) {w : StoreWrite}
    (hpin : ∀ id, w = .pin id → id ∉ atRisk h) : RiskUnpinned h (db.write w) := by
  intro id hid hpinned
  cases w with
  | put | delete => exact hrisk id hid hpinned
  | pin id' =>
      rcases Finset.mem_insert.mp hpinned with rfl | hold
      · exact hpin id rfl hid
      · exact hrisk id hid hold
  | unpin id' => exact hrisk id hid (Finset.mem_of_mem_erase hpinned)

/-- **Pins are respected** while nobody pins a blob at risk: the eviction never gets to the
deletion of a blob that is pinned at that moment, for every schedule of its operations, of
their failures and of writes of other tasks. -/
theorem pins_respected (self : EvictionManager) (overflowChecks : Bool) (db : BlobStore)
    {moves : List EvictionMove}
    (hmoves : Config.Allowed BlobStore.answer BlobStore.write PinsOffRisk
      (self.start overflowChecks db) moves) {id : String}
    {k : StoreCall.Ans (.delete id) → CacheAction (ZingResult Unit)}
    (hnext : ((self.start overflowChecks db).playAll moves).rest = .call (.delete id) k) :
    id ∉ ((self.start overflowChecks db).playAll moves).shared.pins := by
  have hsound : Config.Sound RiskUnpinned riskContract (fun _ _ => True)
      ((self.start overflowChecks db).playAll moves) := by
    refine Config.sound ?_ ?_ ⟨run_risk self overflowChecks, fun _ id hid => by cases hid⟩ hmoves
    · intro h s call k fault hrisk _ _
      exact hrisk.answer fault call
    · intro cfg w hgoing hrisk hallowed
      refine hrisk.write ?_
      rintro id rfl
      exact hallowed.resolve_left hgoing
  obtain ⟨hmeets, hrisk⟩ := hsound
  rw [hnext] at hmeets
  refine hrisk ?_ id (hmeets.1 id rfl)
  rintro (⟨a, hret⟩ | hpanic)
  · rw [hnext] at hret
    cases hret
  · rw [hnext] at hpanic
    cases hpanic

/-! ### A pin that comes too late -/

/-- A database with two blobs of three bytes and no pins. -/
def twoBlobs : BlobStore where
  blobs := (AList.singleton "b" [4, 5, 6]).insert "a" [1, 2, 3]
  pins := ∅

/-- An eviction that may keep one of them. -/
def smallBudget : EvictionManager := ⟨3⟩

/-- The eviction collects its candidates, then the first of them is pinned. -/
def latePin : List EvictionMove :=
  [.own none, .own none, .own none, .own none, .own none, .own none, .other (.pin "a")]

/-- The second blob is pinned while the eviction looks at the first. -/
def earlyPin : List EvictionMove :=
  [.own none, .own none, .own none, .other (.pin "b"), .own none, .own none]

/-- **A pin comes too late**: the blob was found unpinned, is pinned, and is deleted. -/
theorem not_pins_respected :
    ∃ k, ((smallBudget.start true twoBlobs).playAll latePin).rest = .call (.delete "a") k ∧
      "a" ∈ ((smallBudget.start true twoBlobs).playAll latePin).shared.pins ∧
      ((smallBudget.start true twoBlobs).playAll (latePin ++ [.own none])).shared.get "a"
        = none := by
  refine ⟨_, rfl, by decide, by decide⟩

theorem pins_respected_earlyPin :
    "a" ∉ ((smallBudget.start true twoBlobs).playAll earlyPin).shared.pins ∧
      "b" ∈ ((smallBudget.start true twoBlobs).playAll earlyPin).shared.pins := by
  have hallowed : Config.Allowed BlobStore.answer BlobStore.write PinsOffRisk
      (smallBudget.start true twoBlobs) earlyPin :=
    ⟨trivial, trivial, trivial, .inr (by decide), trivial, trivial, trivial⟩
  exact ⟨pins_respected smallBudget true twoBlobs hallowed rfl, by decide⟩

end ZingCdn
