import Mathlib.Algebra.BigOperators.Group.List.Basic
import Mathlib.Algebra.Order.BigOperators.Group.List
import Mathlib.Data.Finset.Erase
import Mathlib.Data.Finset.Insert
import Mathlib.Data.List.AList
import Mathlib.Data.List.Sort
import Mathlib.Data.String.Basic
import ZingCdn.Library.Interference
import ZingCdn.Types

/-!
# The Blob Cache and Its Eviction

The database of cached blobs with its metadata and pins, and `EvictionManager::run`: when the blobs weigh
more than the budget it collects the unpinned blobs with their sizes, in the order of their
keys, and deletes them until the rest fits.

An eviction is a program over the database operations it calls. Each operation is atomic; it
succeeds, or fails with the text of the library error and no effect. Other tasks may write
the database between two operations: the locks that an eviction holds are read locks, or
locks of other objects.

RocksDB orders keys by their bytes, which for UTF-8 is the order of the strings.
-/

open Program Program.Prog

namespace ZingCdn

/-! ### The database -/

/-- The columns of the database: the blobs, their metadata and the pins. -/
structure BlobStore where
  blobs : AList fun _ : String => Bytes
  metadata : AList fun _ : String => Bytes := ∅
  pins : Finset String

namespace BlobStore

/-- `BlobStore::get`. -/
def get (db : BlobStore) (blobId : String) : Option Bytes := db.blobs.lookup blobId

/-- `BlobStore::put`. -/
def put (db : BlobStore) (blobId : String) (data : Bytes) : BlobStore :=
  { db with blobs := db.blobs.insert blobId data }

/-- `BlobStore::delete`. -/
def delete (db : BlobStore) (blobId : String) : BlobStore :=
  { db with blobs := db.blobs.erase blobId }

/-- `BlobStore::get_metadata`. -/
def getMetadata (db : BlobStore) (blobId : String) : Option Bytes := db.metadata.lookup blobId

/-- `BlobStore::list_blob_ids`, in the order of the keys. -/
def listBlobIds (db : BlobStore) : List String := db.blobs.keys.insertionSort (· ≤ ·)

/-- `BlobStore::blob_size`. -/
def blobSize (db : BlobStore) (blobId : String) : Option ℕ := (db.get blobId).map List.length

/-- The bytes a blob takes; none when there is no such blob. -/
def weight (db : BlobStore) (blobId : String) : ℕ := (db.blobSize blobId).getD 0

/-- The bytes that some blobs take. -/
def weightOf (db : BlobStore) (ids : List String) : ℕ := (ids.map db.weight).sum

/-- `BlobStore::total_size`, for blobs whose sizes sum up to a `u64` (`sumSizes_eq`). -/
def totalSize (db : BlobStore) : ℕ := (db.listBlobIds.map db.weight).sum

/-- The loop of `BlobStore::total_size`. -/
def sumSizes (db : BlobStore) (overflowChecks : Bool) : ℕ → List String → Option ℕ
  | total, [] => some total
  | total, id :: rest =>
      match db.blobSize id with
      | none => db.sumSizes overflowChecks total rest
      | some size => (addU64 overflowChecks total size).bind fun total =>
          db.sumSizes overflowChecks total rest

/-- `PinningManager::pin`. -/
def pin (db : BlobStore) (blobId : String) : BlobStore :=
  { db with pins := insert blobId db.pins }

/-- `PinningManager::unpin`. -/
def unpin (db : BlobStore) (blobId : String) : BlobStore :=
  { db with pins := db.pins.erase blobId }

/-- `PinningManager::is_pinned`. -/
def isPinned (db : BlobStore) (blobId : String) : Bool := decide (blobId ∈ db.pins)

variable {db : BlobStore} {id id' : String} {data : Bytes}

/-- A blob that was put is there. -/
@[simp] theorem get_put : (db.put id data).get id = some data := AList.lookup_insert db.blobs

/-- The others stay. -/
@[simp] theorem get_put_of_ne (hne : id' ≠ id) : (db.put id data).get id' = db.get id' :=
  AList.lookup_insert_ne hne

/-- A blob that was deleted is not. -/
@[simp] theorem get_delete : (db.delete id).get id = none := AList.lookup_erase id db.blobs

/-- The others stay. -/
@[simp] theorem get_delete_of_ne (hne : id' ≠ id) : (db.delete id).get id' = db.get id' :=
  AList.lookup_erase_ne hne

/-- Every key is listed once. -/
theorem listBlobIds_nodup : db.listBlobIds.Nodup :=
  (List.perm_insertionSort (· ≤ ·) db.blobs.keys).nodup_iff.mpr db.blobs.keys_nodup

/-- The keys are listed in order. -/
theorem listBlobIds_sorted : db.listBlobIds.Pairwise (· ≤ ·) :=
  List.pairwise_insertionSort (· ≤ ·) db.blobs.keys

/-- The listed blobs are those that are there. -/
theorem mem_listBlobIds : id ∈ db.listBlobIds ↔ (db.get id).isSome := by
  rw [listBlobIds, List.mem_insertionSort, ← AList.mem_keys]
  exact AList.lookup_isSome.symm

/-- The loop of `total_size` adds up the sizes, as long as the sum is a `u64`. -/
theorem sumSizes_eq (overflowChecks : Bool) {total : ℕ} {ids : List String}
    (hfit : total + db.weightOf ids < 18446744073709551616) :
    db.sumSizes overflowChecks total ids = some (total + db.weightOf ids) := by
  induction ids generalizing total with
  | nil => rfl
  | cons id rest ih =>
      have hcons : db.weightOf (id :: rest) = db.weight id + db.weightOf rest := List.sum_cons
      rw [hcons] at hfit ⊢
      rw [sumSizes]
      cases hsize : db.blobSize id with
      | none =>
          have hnone : db.weight id = 0 := by rw [weight, hsize, Option.getD_none]
          rw [hnone, Nat.zero_add] at hfit ⊢
          exact ih hfit
      | some size =>
          have hsome : db.weight id = size := by rw [weight, hsize, Option.getD_some]
          rw [hsome] at hfit ⊢
          have hadd : addU64 overflowChecks total size = some (total + size) :=
            addU64_of_lt (by omega)
          dsimp only
          rw [hadd, Option.bind_some, ih (by omega), Nat.add_assoc]

/-- Other blobs keep their weight. -/
theorem weight_delete_of_ne (hne : id' ≠ id) : (db.delete id).weight id' = db.weight id' := by
  simp [weight, blobSize, hne]

/-- The order of the keys does not matter for the total. -/
theorem totalSize_eq : db.totalSize = (db.blobs.keys.map db.weight).sum :=
  ((List.perm_insertionSort (· ≤ ·) db.blobs.keys).map db.weight).sum_eq

/-- A deletion takes the weight of the blob off the total. -/
theorem totalSize_delete (db : BlobStore) (id : String) :
    (db.delete id).totalSize + db.weight id = db.totalSize := by
  have hkeys : (db.delete id).blobs.keys = db.blobs.keys.erase id := AList.keys_erase id db.blobs
  have hnot : id ∉ db.blobs.keys.erase id := db.blobs.keys_nodup.not_mem_erase
  have hothers : ((db.blobs.keys.erase id).map (db.delete id).weight).sum
      = ((db.blobs.keys.erase id).map db.weight).sum := by
    refine congrArg List.sum (List.map_congr_left fun id' hid' => weight_delete_of_ne ?_)
    rintro rfl
    exact hnot hid'
  rw [totalSize_eq, totalSize_eq, hkeys, hothers]
  by_cases hin : id ∈ db.blobs.keys
  · rw [Nat.add_comm]
    exact List.sum_map_erase db.weight hin
  · have hmissing : db.get id = none := AList.lookup_eq_none.mpr hin
    have hweight : db.weight id = 0 := by simp [weight, blobSize, hmissing]
    rw [List.erase_of_not_mem hin, hweight, Nat.add_zero]

/-- A deletion makes the total no larger. -/
theorem totalSize_delete_le : (db.delete id).totalSize ≤ db.totalSize :=
  totalSize_delete db id ▸ Nat.le_add_right _ _

end BlobStore

/-! ### The operations of an eviction -/

/-- The database operations that an eviction calls. -/
inductive StoreCall
  | totalSize
  | listBlobIds
  | isPinned (blobId : String)
  | blobSize (blobId : String)
  | delete (blobId : String)
deriving DecidableEq

namespace StoreCall

/-- What an operation returns when it succeeds. -/
def Val : StoreCall → Type
  | .totalSize => ℕ
  | .listBlobIds => List String
  | .isPinned _ => Bool
  | .blobSize _ => Option ℕ
  | .delete _ => Unit

/-- The answer to an operation: its value, or the text of the library error. -/
def Ans (call : StoreCall) : Type := Except String call.Val

end StoreCall

/-- What an operation returns and does when it succeeds. -/
def BlobStore.perform (db : BlobStore) : (call : StoreCall) → call.Val × BlobStore
  | .totalSize => (db.totalSize, db)
  | .listBlobIds => (db.listBlobIds, db)
  | .isPinned id => (db.isPinned id, db)
  | .blobSize id => (db.blobSize id, db)
  | .delete id => ((), db.delete id)

/-- An operation that fails has no effect. -/
def BlobStore.answer (db : BlobStore) (fault : Option String) (call : StoreCall) :
    call.Ans × BlobStore :=
  match fault with
  | some e => (.error e, db)
  | none => (.ok (db.perform call).1, (db.perform call).2)

/-! ### The eviction -/

/-- A program over the database operations. -/
abbrev CacheAction : Type → Type := Prog StoreCall.Ans

/-- The history of such a program. -/
abbrev CacheTrace : Type := History StoreCall.Ans

/-- Call an operation, with its error as a cache error. -/
def cacheCall (call : StoreCall) : CacheAction (ZingResult call.Val) := do
  let r : Except String call.Val ← Prog.perform call
  pure (r.mapError .cache)

/-- `EvictionManager`, apart from its database. -/
structure EvictionManager where
  budgetBytes : ℕ
deriving DecidableEq

namespace EvictionManager

/-- The loop of `run` that collects the unpinned blobs with their sizes. -/
def collectCandidates :
    List String → List (String × ℕ) → CacheAction (ZingResult (List (String × ℕ)))
  | [], candidates => pure (.ok candidates)
  | id :: rest, candidates => do
      let pinned : ZingResult Bool ← cacheCall (.isPinned id)
      match pinned with
      | .error e => pure (.error e)
      | .ok true => collectCandidates rest candidates
      | .ok false => do
          let size : ZingResult (Option ℕ) ← cacheCall (.blobSize id)
          match size with
          | .error e => pure (.error e)
          | .ok none => pure (.error (.cache ("blob " ++ id ++ " has no size")))
          | .ok (some size) => collectCandidates rest (candidates ++ [(id, size)])

/-- `total -= size` on `u64`: an underflow panics when overflow checks are compiled in, and
wraps when not. -/
def subU64 (overflowChecks : Bool) (total size : ℕ) : Option ℕ :=
  if size ≤ total then some (total - size)
  else if overflowChecks then none
  else some (total + 18446744073709551616 - size)

variable (self : EvictionManager) (overflowChecks : Bool)

/-- The loop of `run` that deletes candidates until the total is within the budget. -/
def deleteCandidates : ℕ → List (String × ℕ) → CacheAction (ZingResult Unit)
  | _, [] => pure (.ok ())
  | total, (id, size) :: rest =>
      if total ≤ self.budgetBytes then pure (.ok ())
      else do
        let deleted : ZingResult Unit ← cacheCall (.delete id)
        match deleted with
        | .error e => pure (.error e)
        | .ok () =>
            match subU64 overflowChecks total size with
            | none => .panic
            | some total => deleteCandidates total rest

/-- `EvictionManager::run`. -/
def run : CacheAction (ZingResult Unit) := do
  let total : ZingResult ℕ ← cacheCall .totalSize
  match total with
  | .error e => pure (.error e)
  | .ok total =>
      if total ≤ self.budgetBytes then pure (.ok ())
      else do
        let blobIds : ZingResult (List String) ← cacheCall .listBlobIds
        match blobIds with
        | .error e => pure (.error e)
        | .ok blobIds => do
            let candidates ← collectCandidates blobIds []
            match candidates with
            | .error e => pure (.error e)
            | .ok candidates => self.deleteCandidates overflowChecks total candidates

end EvictionManager

/-- The sizes of some candidates. -/
def sizes (candidates : List (String × ℕ)) : ℕ := (candidates.map Prod.snd).sum

/-- The first candidate counts. -/
@[simp] theorem sizes_cons (candidate : String × ℕ) (rest : List (String × ℕ)) :
    sizes (candidate :: rest) = candidate.2 + sizes rest := by
  simp [sizes]

/-- So does the last. -/
@[simp] theorem sizes_concat (candidates : List (String × ℕ)) (candidate : String × ℕ) :
    sizes (candidates ++ [candidate]) = sizes candidates + candidate.2 := by
  simp [sizes]

/-! ### Other tasks -/

/-- What another task may do to the database between two operations of an eviction. -/
inductive StoreWrite
  | put (blobId : String) (data : Bytes)
  | delete (blobId : String)
  | pin (blobId : String)
  | unpin (blobId : String)
deriving DecidableEq

/-- The database after a write. -/
def BlobStore.write (db : BlobStore) : StoreWrite → BlobStore
  | .put id data => db.put id data
  | .delete id => db.delete id
  | .pin id => db.pin id
  | .unpin id => db.unpin id

/-- An eviction in progress. -/
abbrev EvictionState : Type := Config StoreCall.Ans BlobStore (ZingResult Unit)

/-- A move: the next operation of the eviction, which may fail, or a write of another
task. -/
abbrev EvictionMove : Type := Move (Option String) StoreWrite

/-- The start of an eviction. -/
def EvictionManager.start (self : EvictionManager) (overflowChecks : Bool) (db : BlobStore) :
    EvictionState := ⟨db, [], self.run overflowChecks⟩

/-- An eviction after a schedule of moves. -/
abbrev EvictionState.playAll (cfg : EvictionState) (moves : List EvictionMove) : EvictionState :=
  Config.playAll BlobStore.answer BlobStore.write cfg moves

end ZingCdn
