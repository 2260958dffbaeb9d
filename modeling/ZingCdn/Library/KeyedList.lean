import Mathlib.Algebra.BigOperators.Group.List.Basic
import Mathlib.Algebra.GroupWithZero.Nat
import Mathlib.Data.List.Nodup

/-!
# Keyed Lists

A finite store kept as a list whose entries carry their own key. Under distinct keys,
looking up, replacing and removing the entry of one key behave as on a finite map, and
the sum of a quantity over the list changes by exactly the change at that entry.
-/

namespace KeyedList

variable {K V : Type*} [DecidableEq K] {key : V → K}

/-- The entry with a given key. -/
def lookup (key : V → K) (k : K) (l : List V) : Option V := l.find? fun v => key v = k

/-- Replace the entry that has the same key as `v`. -/
def replace (key : V → K) (v : V) (l : List V) : List V :=
  l.map fun u => if key u = key v then v else u

/-- Drop the entry with a given key. -/
def remove (key : V → K) (k : K) (l : List V) : List V := l.filter fun u => key u ≠ k

/-- What is found is in the list. -/
theorem mem_of_lookup {k : K} {l : List V} {v : V} (h : lookup key k l = some v) : v ∈ l :=
  List.mem_of_find?_eq_some h

/-- It has the key. -/
theorem key_of_lookup {k : K} {l : List V} {v : V} (h : lookup key k l = some v) :
    key v = k := by
  have := List.find?_some h
  simpa using this

omit [DecidableEq K] in
/-- Distinct keys: an entry is determined by its key. -/
theorem eq_of_key_eq {l : List V} (hnd : (l.map key).Nodup) {u v : V} (hu : u ∈ l)
    (hv : v ∈ l) (h : key u = key v) : u = v :=
  List.inj_on_of_nodup_map hnd hu hv h

/-- Distinct keys: looking up the key of an entry finds that entry. -/
theorem lookup_of_mem {l : List V} (hnd : (l.map key).Nodup) {v : V} (hv : v ∈ l) :
    lookup key (key v) l = some v := by
  cases h : lookup key (key v) l with
  | none =>
      have := List.find?_eq_none.mp h v hv
      simp at this
  | some u => rw [eq_of_key_eq hnd (mem_of_lookup h) hv (key_of_lookup h)]

/-! ### Replacing an entry -/

/-- Replacing keeps the keys. -/
@[simp] theorem map_key_replace (v : V) (l : List V) :
    (replace key v l).map key = l.map key := by
  simp only [replace, List.map_map]
  refine List.map_congr_left fun u _ => ?_
  by_cases h : key u = key v <;> simp [h]

/-- The entries after a replacement: the new one, and the old ones with other keys. -/
theorem mem_replace {v u : V} {l : List V} (h : u ∈ replace key v l) :
    u = v ∨ (u ∈ l ∧ key u ≠ key v) := by
  obtain ⟨x, hx, rfl⟩ := List.mem_map.mp h
  by_cases hk : key x = key v
  · exact .inl (if_pos hk)
  · rw [if_neg hk]
    exact .inr ⟨hx, hk⟩

/-- It keeps the other values. -/
theorem mem_replace_of_ne {v u : V} {l : List V} (hu : u ∈ l) (h : key u ≠ key v) :
    u ∈ replace key v l :=
  List.mem_map.mpr ⟨u, hu, if_neg h⟩

/-- The new value is in the list. -/
theorem mem_replace_self {v w : V} {l : List V} (hw : w ∈ l) (h : key w = key v) :
    v ∈ replace key v l :=
  List.mem_map.mpr ⟨w, hw, if_pos h⟩

/-- Another key is looked up as before. -/
theorem lookup_replace_of_ne {k : K} {v : V} (h : key v ≠ k) (l : List V) :
    lookup key k (replace key v l) = lookup key k l := by
  induction l with
  | nil => rfl
  | cons u l ih =>
      simp only [lookup, replace, List.map_cons, List.find?_cons] at ih ⊢
      by_cases hu : key u = key v
      · have hk : key u ≠ k := fun heq => h (hu.symm.trans heq)
        simp only [hu, if_true, h, decide_false]
        exact ih
      · simp only [hu, if_false]
        rw [ih]

/-- A replacement whose key does not occur changes nothing. -/
theorem replace_of_notMem {v : V} {l : List V} (h : key v ∉ l.map key) :
    replace key v l = l := by
  have hid : ∀ u ∈ l, (if key u = key v then v else u) = u := fun u hu =>
    if_neg fun hk => h (by rw [← hk]; exact List.mem_map_of_mem hu)
  rw [replace, List.map_congr_left hid, List.map_id']

/-- Replacing `w` by `v` changes a sum by exactly the change of the summand. -/
theorem sum_replace (f : V → ℕ) {l : List V} (hnd : (l.map key).Nodup) {v w : V}
    (hw : w ∈ l) (h : key w = key v) :
    ((replace key v l).map f).sum + f w = (l.map f).sum + f v := by
  induction l with
  | nil => simp at hw
  | cons a l ih =>
      rw [List.map_cons, List.nodup_cons] at hnd
      rcases List.mem_cons.mp hw with rfl | hw'
      · have hrest : replace key v l = l := replace_of_notMem (h ▸ hnd.1)
        have hcons : replace key v (w :: l) = v :: l := by
          conv_rhs => rw [← hrest]
          exact congrArg (· :: replace key v l) (if_pos h)
        rw [hcons, List.map_cons, List.map_cons, List.sum_cons, List.sum_cons]
        omega
      · have hne : key a ≠ key v := fun hk =>
          hnd.1 (hk ▸ h ▸ List.mem_map_of_mem hw')
        have hcons : replace key v (a :: l) = a :: replace key v l := by
          simp [replace, hne]
        have := ih hnd.2 hw'
        rw [hcons, List.map_cons, List.map_cons, List.sum_cons, List.sum_cons]
        omega

/-! ### Removing an entry -/

/-- What is left are the values with other keys. -/
theorem mem_remove {k : K} {u : V} {l : List V} :
    u ∈ remove key k l ↔ u ∈ l ∧ key u ≠ k := by
  simp [remove]

/-- Their keys are still unique. -/
theorem nodup_remove {l : List V} (hnd : (l.map key).Nodup) (k : K) :
    ((remove key k l).map key).Nodup :=
  hnd.sublist (List.filter_sublist.map key)

/-- A removal whose key does not occur changes nothing. -/
theorem remove_of_notMem {k : K} {l : List V} (h : k ∉ l.map key) :
    remove key k l = l :=
  List.filter_eq_self.mpr fun u hu => by
    have : key u ≠ k := fun hk => h (hk ▸ List.mem_map_of_mem hu)
    simpa using this

/-- Removing the head of a list that has its key nowhere else. -/
theorem remove_cons_self {v : V} {l : List V} (h : key v ∉ l.map key) :
    remove key (key v) (v :: l) = l := by
  have hhead : remove key (key v) (v :: l) = remove key (key v) l := by simp [remove]
  rw [hhead, remove_of_notMem h]

/-- Removing `w` lowers a sum by exactly its summand. -/
theorem sum_remove (f : V → ℕ) {l : List V} (hnd : (l.map key).Nodup) {w : V}
    (hw : w ∈ l) : ((remove key (key w) l).map f).sum + f w = (l.map f).sum := by
  induction l with
  | nil => simp at hw
  | cons a l ih =>
      rw [List.map_cons, List.nodup_cons] at hnd
      rcases List.mem_cons.mp hw with rfl | hw'
      · have hcons : remove key (key w) (w :: l) = l := remove_cons_self hnd.1
        rw [hcons, List.map_cons, List.sum_cons]
        omega
      · have hne : key a ≠ key w := fun hk => hnd.1 (hk ▸ List.mem_map_of_mem hw')
        have hcons : remove key (key w) (a :: l) = a :: remove key (key w) l := by
          rw [remove, List.filter_cons_of_pos (by simpa using hne), remove]
        have := ih hnd.2 hw'
        rw [hcons, List.map_cons, List.map_cons, List.sum_cons, List.sum_cons]
        omega

end KeyedList
