import ZingCdn.EvictionRun

/-!
# The Order of Eviction

Which blobs an eviction takes, against the history of the store. The candidates are in the
order of their keys, and a read leaves no trace in the database, so the history has no say in
it: an eviction takes the blobs that were used, or stored, longest ago only as far as the order
of the keys happens to be that order.

The history is the list of operations since the store was created (`StoreOp`); the age of a
blob is the position of the last operation that used or stored it.

## Main results

* `eviction_order_iff`: an eviction respects the order of use, or of storing, exactly when no
  two unpinned blobs on the two sides of the budget are inverted in it.
* `not_eviction_order`: the blob stored last goes first.
-/

namespace ZingCdn

/-- What the tasks of the node do to the store: blobs are stored and read, pinned and
unpinned. -/
inductive StoreOp
  | put (blobId : String) (data : Bytes)
  | get (blobId : String)
  | pin (blobId : String)
  | unpin (blobId : String)
deriving DecidableEq

namespace StoreOp

/-- The operation stores the blob. -/
def stores (id : String) : StoreOp → Bool
  | .put blobId _ => blobId = id
  | _ => false

/-- The operation uses the blob: it stores or reads it. -/
def uses (id : String) : StoreOp → Bool
  | .put blobId _ => blobId = id
  | .get blobId => blobId = id
  | _ => false

/-- The store after an operation: a read leaves it as it is. -/
def apply (db : BlobStore) : StoreOp → BlobStore
  | .put id data => db.put id data
  | .get _ => db
  | .pin id => db.pin id
  | .unpin id => db.unpin id

end StoreOp

/-- A new store. -/
def BlobStore.empty : BlobStore where
  blobs := ∅
  pins := ∅

/-- The store after a history of operations. -/
def BlobStore.ofOps (ops : List StoreOp) : BlobStore := ops.foldl StoreOp.apply .empty

/-- The position in a history, counted from one, of the last operation of a kind; zero when
there is none. -/
def lastOp (kind : StoreOp → Bool) (ops : List StoreOp) : ℕ :=
  ops.length - ops.reverse.findIdx kind

/-- When the blob was last used. -/
def lastUsed (ops : List StoreOp) (id : String) : ℕ := lastOp (StoreOp.uses id) ops

/-- When the blob was last stored. -/
def lastStored (ops : List StoreOp) (id : String) : ℕ := lastOp (StoreOp.stores id) ops

/-! ### Positions in a history -/

variable {ops : List StoreOp} {id : String}

theorem lastOp_pos {kind : StoreOp → Bool} {op : StoreOp} (hop : op ∈ ops) (hkind : kind op) :
    0 < lastOp kind ops := by
  have hfound : ops.reverse.findIdx kind < ops.reverse.length :=
    List.findIdx_lt_length_of_exists ⟨op, List.mem_reverse.mpr hop, hkind⟩
  rw [List.length_reverse] at hfound
  exact Nat.sub_pos_of_lt hfound

/-- The last operation of a kind is no later than the last one of a wider kind. -/
theorem lastOp_mono {kind kind' : StoreOp → Bool} (h : ∀ op, kind op → kind' op) :
    lastOp kind ops ≤ lastOp kind' ops :=
  Nat.sub_le_sub_left (List.findIdx_le_findIdx fun op _ => h op) _

/-- One operation puts a blob there only by storing it. -/
theorem StoreOp.get_apply {db : BlobStore} {op : StoreOp}
    (hget : ((op.apply db).get id).isSome) : (db.get id).isSome ∨ op.stores id := by
  cases op with
  | put blobId data =>
      by_cases hid : id = blobId
      · exact .inr (decide_eq_true hid.symm)
      · have hothers : (db.put blobId data).get id = db.get id := BlobStore.get_put_of_ne hid
        exact .inl (hothers ▸ hget)
  | get | pin | unpin => exact .inl hget

/-- A blob is there because it was stored. -/
theorem exists_stores_of_get {db : BlobStore}
    (hget : ((ops.foldl StoreOp.apply db).get id).isSome) :
    (db.get id).isSome ∨ ∃ op ∈ ops, op.stores id := by
  induction ops generalizing db with
  | nil => exact .inl hget
  | cons op rest ih =>
      rcases ih hget with hafter | ⟨op', hop', hstores⟩
      · exact (StoreOp.get_apply hafter).imp_right fun hop => ⟨op, List.mem_cons_self, hop⟩
      · exact .inr ⟨op', List.mem_cons_of_mem _ hop', hstores⟩

/-- The blobs of a store were stored, and used no earlier. -/
theorem lastStored_pos (hget : ((BlobStore.ofOps ops).get id).isSome) :
    0 < lastStored ops id ∧ lastStored ops id ≤ lastUsed ops id := by
  have hwider : ∀ op : StoreOp, op.stores id → op.uses id := by
    intro op hop
    cases op with
    | put => exact hop
    | get | pin | unpin => exact absurd hop Bool.false_ne_true
  obtain ⟨op, hop, hstores⟩ := (exists_stores_of_get hget).resolve_left (by simp [BlobStore.get,
    BlobStore.empty])
  exact ⟨lastOp_pos hop hstores, lastOp_mono hwider⟩

/-! ### The blobs an eviction takes -/

/-- An eviction takes an unpinned blob when the unpinned blobs before it do not make enough
room. -/
theorem gone_iff (manager : EvictionManager) (overflowChecks : Bool) {db : BlobStore}
    {key : String} (hkey : key ∈ db.unpinned) :
    (db.runAlone faultless (manager.run overflowChecks)).1.get key = none ↔
      manager.budgetBytes + db.weightBefore key < db.totalSize := by
  obtain ⟨hstored, hpin⟩ := BlobStore.mem_unpinned.mp hkey
  have hleaves := manager.leaves_run overflowChecks faultless db
  constructor
  · intro hgone
    by_contra hroom
    have hkept := hleaves.kept key fun hevicts => hroom hevicts.overBudget
    rw [← hkept, hgone] at hstored
    exact absurd hstored (by simp)
  · intro hroom
    exact hleaves.gone key
      ⟨hpin, hroom, rfl, rfl, fun _ _ => ⟨rfl, fun _ => rfl⟩, fun _ _ _ _ => rfl⟩

/-- The unpinned blobs gone between two states of the store are no younger than those that
stayed. -/
def EvictsOldest (age : String → ℕ) (db after : BlobStore) : Prop :=
  ∀ x ∈ db.unpinned, ∀ y ∈ db.unpinned,
    after.get x = none → (after.get y).isSome → age x ≤ age y

/-- Two unpinned blobs on the two sides of the budget, in the order of the keys, the younger
of them on the side that goes. -/
def Inverted (age : String → ℕ) (budget : ℕ) (db : BlobStore) : Prop :=
  ∃ x ∈ db.unpinned, ∃ y ∈ db.unpinned,
    budget + db.weightBefore x < db.totalSize ∧ db.totalSize ≤ budget + db.weightBefore y ∧
      age y < age x

/-- **Which order an eviction respects**, whatever the age of a blob is. -/
theorem evictsOldest_iff (manager : EvictionManager) (overflowChecks : Bool) (db : BlobStore)
    (age : String → ℕ) :
    EvictsOldest age db (db.runAlone faultless (manager.run overflowChecks)).1 ↔
      ¬ Inverted age manager.budgetBytes db := by
  have hkept : ∀ y ∈ db.unpinned,
      ((db.runAlone faultless (manager.run overflowChecks)).1.get y).isSome ↔
        db.totalSize ≤ manager.budgetBytes + db.weightBefore y := by
    intro y hy
    rw [Option.isSome_iff_ne_none, ne_eq, gone_iff manager overflowChecks hy, Nat.not_lt]
  constructor
  · rintro holdest ⟨x, hx, y, hy, hgone, hroom, hage⟩
    have hle := holdest x hx y hy ((gone_iff manager overflowChecks hx).mpr hgone)
      ((hkept y hy).mpr hroom)
    omega
  · intro hnot x hx y hy hgone hstays
    by_contra hage
    exact hnot ⟨x, hx, y, hy, (gone_iff manager overflowChecks hx).mp hgone,
      (hkept y hy).mp hstays, Nat.lt_of_not_le hage⟩

/-- **The order of eviction.** After every history of the store, an eviction takes the least
recently used unpinned blobs, and the unpinned blobs stored longest ago, exactly when no two
unpinned blobs on the two sides of the budget are inverted in that order. The blobs of the
store were stored in the history, and used no earlier. -/
theorem eviction_order_iff (manager : EvictionManager) (overflowChecks : Bool)
    (ops : List StoreOp) :
    let db := BlobStore.ofOps ops
    let after := (db.runAlone faultless (manager.run overflowChecks)).1
    (∀ id, (db.get id).isSome → 0 < lastStored ops id ∧ lastStored ops id ≤ lastUsed ops id) ∧
    (EvictsOldest (lastUsed ops) db after ↔
      ¬ Inverted (lastUsed ops) manager.budgetBytes db) ∧
    (EvictsOldest (lastStored ops) db after ↔
      ¬ Inverted (lastStored ops) manager.budgetBytes db) :=
  ⟨fun _ => lastStored_pos, evictsOldest_iff manager overflowChecks _ _,
    evictsOldest_iff manager overflowChecks _ _⟩

/-- A blob `b` is stored, then a blob `a`. -/
def newestFirst : List StoreOp := [.put "b" [4, 5, 6], .put "a" [1, 2, 3]]

/-- **The youngest goes first**: the blob stored last is taken, and the older one stays. -/
theorem not_eviction_order :
    ¬ (∀ manager ops, EvictsOldest (lastUsed ops) (BlobStore.ofOps ops)
        ((BlobStore.ofOps ops).runAlone faultless (EvictionManager.run manager true)).1) ∧
    ¬ (∀ manager ops, EvictsOldest (lastStored ops) (BlobStore.ofOps ops)
        ((BlobStore.ofOps ops).runAlone faultless (EvictionManager.run manager true)).1) := by
  constructor
  · intro hlru
    exact absurd (hlru ⟨3⟩ newestFirst "a" (by decide) "b" (by decide) (by decide) (by decide))
      (by decide)
  · intro hfifo
    exact absurd (hfifo ⟨3⟩ newestFirst "a" (by decide) "b" (by decide) (by decide) (by decide))
      (by decide)

end ZingCdn
