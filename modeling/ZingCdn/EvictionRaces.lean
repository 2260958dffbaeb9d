import ZingCdn.EvictionPins

/-!
# Evictions among Other Writes

An eviction counts the bytes of the database once, then lists the blobs, then reads the size
of each unpinned one, and subtracts the size of every blob it deletes from its count. Between
two of these operations other tasks store and delete blobs. A blob that vanishes after the
listing ends the eviction with an error, and a blob that comes or grows after the count can
make the subtraction underflow.

What the count is good for is an account of its own: as long as the sizes still to be read
and those already read weigh no more than the count, every subtraction is within it. Writes
that keep the account are harmless: any before the count, and after it those that store no
more than the count covers and delete no blob whose size is still to be read.

## Main results

* `eviction_safe`: among harmless writes no subtraction underflows, and an eviction ends
  without an error.
* `not_eviction_safe`: a deletion makes an eviction fail; a new blob makes it panic or, without
  overflow checks, delete everything.
-/

open Program Program.Prog

namespace ZingCdn

/-! ### How far an eviction has come -/

/-- The phases of an eviction up to its deletions: it has counted nothing, it has counted a
total, or it reads sizes and has come to a sum, with some blobs to go. -/
inductive Phase
  | start
  | counted (total : ℕ)
  | sizing (total read : ℕ) (todo : List String)
deriving DecidableEq

namespace Phase

/-- The phase after a listing. -/
def list : Phase → List String → Phase
  | .counted total, ids => .sizing total 0 ids
  | p, _ => p

/-- The phase after a blob that counts with a size. -/
def pass : Phase → String → ℕ → Phase
  | .sizing total read todo, id, size => .sizing total (read + size) (todo.erase id)
  | p, _, _ => p

/-- The phase after one more operation. -/
def next (p : Phase) : (call : StoreCall) → call.Ans → Phase
  | .totalSize, .ok total => .counted total
  | .listBlobIds, .ok ids => p.list ids
  | .isPinned id, .ok true => p.pass id 0
  | .blobSize id, .ok size => p.pass id (Option.getD size 0)
  | _, _ => p

end Phase

/-- The phase an eviction is in. -/
def phase (h : CacheTrace) : Phase := h.foldl (fun p ev => p.next ev.1 ev.2) .start

@[simp] theorem phase_concat (h : CacheTrace) (ev : Event StoreCall.Ans) :
    phase (h ++ [ev]) = (phase h).next ev.1 ev.2 := by
  rw [phase, List.foldl_append]
  rfl

/-! ### The account -/

/-- The count covers what is still to be read: after counting, the whole database; while the
sizes are read, those read already with the blobs to go, which are all there. -/
def Accounted (db : BlobStore) : Phase → Prop
  | .start => True
  | .counted total => db.totalSize ≤ total
  | .sizing total read todo =>
      (∀ id ∈ todo, (db.get id).isSome) ∧ read + (todo.map db.weight).sum ≤ total

/-- The sizes read so far are within the count. -/
def Phase.Balanced : Phase → Prop
  | .sizing total read _ => read ≤ total
  | _ => True

theorem Accounted.balanced {db : BlobStore} {p : Phase} (ha : Accounted db p) : p.Balanced := by
  cases p with
  | start | counted => trivial
  | sizing total read todo => exact (Nat.le_add_right _ _).trans ha.2

/-- The writes that keep the account: once there is a count, no blob is stored that the count
does not cover, and once there is a listing, no blob to go is deleted. -/
def Harmless (db : BlobStore) : Phase → StoreWrite → Prop
  | .counted total, .put id data => (db.put id data).totalSize ≤ total
  | .sizing total read todo, .put id data =>
      read + (todo.map (db.put id data).weight).sum ≤ total
  | .sizing _ _ todo, .delete id => id ∉ todo
  | _, _ => True

instance decidableHarmless (db : BlobStore) (w : StoreWrite) :
    (p : Phase) → Decidable (Harmless db p w)
  | .start => .isTrue (by cases w <;> trivial)
  | .counted total =>
      match w with
      | .put id data => Nat.decLe (db.put id data).totalSize total
      | .delete _ | .pin _ | .unpin _ => .isTrue trivial
  | .sizing total read todo =>
      match w with
      | .put id data => Nat.decLe (read + (todo.map (db.put id data).weight).sum) total
      | .delete id => instDecidableNot
      | .pin _ | .unpin _ => .isTrue trivial

/-- No operation fails, and other tasks write nothing harmful while the eviction goes on. -/
def Calm (cfg : EvictionState) : EvictionMove → Prop
  | .own fault => fault = none
  | .other w => cfg.Ended ∨ Harmless cfg.shared (phase cfg.history) w

/-! ### An eviction with an account -/

/-- An answer is no error, and a size is there. -/
def Succeeded : (call : StoreCall) → call.Ans → Prop
  | .blobSize _, .ok size => Option.isSome size = true
  | _, .error _ => False
  | _, .ok _ => True

/-- The operations in the order of the phases: the listing after the count, sizes of blobs to
go, and deletions when there are none. -/
def InOrder : Phase → StoreCall → Prop
  | p, .listBlobIds => ∃ total, p = .counted total
  | p, .blobSize id => ∃ total read todo, p = .sizing total read todo ∧ id ∈ todo
  | p, .delete _ => ∃ total read, p = .sizing total read []
  | _, _ => True

/-- The contract to keep the order, when every operation is answered within the account. -/
def accountContract : Contract StoreCall.Ans where
  rely h call r := Succeeded call r ∧ ((phase h).next call r).Balanced
  guarantee h call := InOrder (phase h) call
  mayPanic := False

variable {h : CacheTrace} {total : ℕ}

/-- Collecting the candidates reads their sizes, which stay within the count. -/
theorem collectCandidates_account {ids : List String} {candidates : List (String × ℕ)}
    (hphase : phase h = .sizing total (sizes candidates) ids) (hsum : sizes candidates ≤ total) :
    Meets accountContract h (EvictionManager.collectCandidates ids candidates) fun h' r =>
      ∃ l, r = .ok l ∧ phase h' = .sizing total (sizes l) [] ∧ sizes l ≤ total := by
  induction ids generalizing h candidates with
  | nil => exact ⟨candidates, rfl, hphase, hsum⟩
  | cons id rest ih =>
      refine ⟨trivial, fun pinned hpinned => ?_⟩
      rcases pinned with e | - | -
      · exact hpinned.1.elim
      · have hkept : phase (h ++ [⟨.isPinned id, .ok false⟩])
            = .sizing total (sizes candidates) (id :: rest) := by
          rw [phase_concat]
          exact hphase
        refine ⟨⟨_, _, _, hkept, List.mem_cons_self⟩, fun size hsize => ?_⟩
        obtain ⟨hsucceeded, hbalanced⟩ := hsize
        rcases size with e | - | size
        · exact hsucceeded.elim
        · cases hsucceeded
        · have hread : (phase (h ++ [⟨.isPinned id, .ok false⟩])).next (.blobSize id)
              (.ok (some size)) = .sizing total (sizes (candidates ++ [(id, size)])) rest := by
            rw [hkept, sizes_concat]
            exact congrArg (Phase.sizing total _) (List.erase_cons_head id rest)
          rw [hread] at hbalanced
          refine ih ?_ hbalanced
          rw [phase_concat]
          exact hread
      · refine ih ?_ hsum
        rw [phase_concat, hphase]
        exact congrArg (Phase.sizing total _) (List.erase_cons_head id rest)

/-- The candidates are deleted without an underflow. -/
theorem deleteCandidates_account (self : EvictionManager) (overflowChecks : Bool) {read left : ℕ}
    {candidates : List (String × ℕ)} (hphase : phase h = .sizing total read [])
    (hsum : sizes candidates ≤ left) :
    Meets accountContract h (self.deleteCandidates overflowChecks left candidates)
      fun _ r => r = .ok () := by
  induction candidates generalizing h left with
  | nil => rfl
  | cons candidate rest ih =>
      obtain ⟨id, size⟩ := candidate
      rw [sizes_cons] at hsum
      have hle : size ≤ left := (Nat.le_add_right _ _).trans hsum
      rw [EvictionManager.deleteCandidates]
      split
      · rfl
      refine ⟨⟨_, _, hphase⟩, fun deleted hdeleted => ?_⟩
      rcases deleted with e | _
      · exact hdeleted.1.elim
      · have hsub : EvictionManager.subU64 overflowChecks left size = some (left - size) :=
          if_pos hle
        rw [hsub]
        refine ih ?_ (Nat.le_sub_of_add_le' hsum)
        rw [phase_concat]
        exact hphase

/-- **An eviction with an account ends well.** -/
theorem run_account (self : EvictionManager) (overflowChecks : Bool) :
    Meets accountContract [] (self.run overflowChecks) fun _ r => r = .ok () := by
  refine ⟨trivial, fun total htotal => ?_⟩
  rcases total with e | (total : ℕ)
  · exact htotal.1.elim
  refine Meets.ite (fun hwithin => ?_) fun hover => ?_
  · rfl
  refine ⟨⟨total, rfl⟩, fun ids hids => ?_⟩
  rcases ids with e | ids
  · exact hids.1.elim
  have hlisted : phase ([] ++ [⟨.totalSize, .ok total⟩] ++ [⟨.listBlobIds, .ok ids⟩])
      = .sizing total (sizes []) ids := rfl
  refine (collectCandidates_account hlisted (Nat.zero_le _)).bind ?_
  rintro h' - - ⟨candidates, rfl, hphase, hsum⟩
  exact deleteCandidates_account self overflowChecks hphase hsum

/-! ### The account is kept -/

variable {db : BlobStore} {p : Phase}

/-- A blob to go is passed with at most its weight. -/
theorem Accounted.pass {total read size : ℕ} {todo : List String} {id : String}
    (ha : Accounted db (.sizing total read todo)) (hsize : id ∈ todo → size ≤ db.weight id)
    (hnone : id ∉ todo → size = 0) :
    Accounted db (.sizing total (read + size) (todo.erase id)) := by
  obtain ⟨hthere, hsum⟩ := ha
  refine ⟨fun id' hid' => hthere id' (List.mem_of_mem_erase hid'), ?_⟩
  by_cases hid : id ∈ todo
  · have hmoved := List.sum_map_erase db.weight hid
    have hle := hsize hid
    omega
  · rw [List.erase_of_not_mem hid, hnone hid]
    exact hsum

/-- An operation of the eviction keeps the account, and answers within it. -/
theorem Accounted.answer {call : StoreCall} (ha : Accounted db p) (horder : InOrder p call) :
    Succeeded call (db.answer none call).1 ∧
      Accounted (db.answer none call).2 (p.next call (db.answer none call).1) := by
  cases call with
  | totalSize => exact ⟨trivial, Nat.le_refl _⟩
  | listBlobIds =>
      obtain ⟨total, rfl⟩ := horder
      refine ⟨trivial, fun id hid => BlobStore.mem_listBlobIds.mp hid, ?_⟩
      rw [Nat.zero_add]
      exact ha
  | isPinned id =>
      refine ⟨trivial, ?_⟩
      by_cases hid : id ∈ db.pins
      · have hpinned : db.isPinned id = true := decide_eq_true hid
        show Accounted db (p.next (.isPinned id) (.ok (db.isPinned id)))
        rw [hpinned]
        cases p with
        | start | counted => exact ha
        | sizing total read todo => exact ha.pass (fun _ => Nat.zero_le _) (fun _ => rfl)
      · have hpinned : db.isPinned id = false := decide_eq_false hid
        show Accounted db (p.next (.isPinned id) (.ok (db.isPinned id)))
        rw [hpinned]
        exact ha
  | blobSize id =>
      obtain ⟨total, read, todo, rfl, hid⟩ := horder
      obtain ⟨data, hdata⟩ := Option.isSome_iff_exists.mp (ha.1 id hid)
      have hsize : db.blobSize id = some data.length := by rw [BlobStore.blobSize, hdata]; rfl
      have hweight : db.weight id = data.length := by rw [BlobStore.weight, hsize]; rfl
      show Succeeded (.blobSize id) (.ok (db.blobSize id)) ∧
        Accounted db (Phase.next _ (.blobSize id) (.ok (db.blobSize id)))
      rw [hsize]
      exact ⟨rfl, ha.pass (fun _ => hweight.ge) fun hnot => absurd hid hnot⟩
  | delete id =>
      obtain ⟨total, read, rfl⟩ := horder
      exact ⟨trivial, by rintro _ ⟨⟩, ha.2⟩

/-- A harmless write keeps the account. -/
theorem Accounted.write (ha : Accounted db p) {w : StoreWrite} (hw : Harmless db p w) :
    Accounted (db.write w) p := by
  cases p with
  | start => trivial
  | counted total =>
      cases w with
      | put id data => exact hw
      | delete id => exact BlobStore.totalSize_delete_le.trans ha
      | pin | unpin => exact ha
  | sizing total read todo =>
      cases w with
      | put id data =>
          refine ⟨fun id' hid' => ?_, hw⟩
          show ((db.put id data).get id').isSome
          by_cases hne : id' = id
          · rw [hne, BlobStore.get_put]
            rfl
          · rw [BlobStore.get_put_of_ne hne]
            exact ha.1 id' hid'
      | delete id =>
          have hne : ∀ id' ∈ todo, id' ≠ id := fun id' hid' heq => hw (heq ▸ hid')
          have hweights : todo.map (db.delete id).weight = todo.map db.weight :=
            List.map_congr_left fun id' hid' => BlobStore.weight_delete_of_ne (hne id' hid')
          refine ⟨fun id' hid' => ?_, ?_⟩
          · show ((db.delete id).get id').isSome
            rw [BlobStore.get_delete_of_ne (hne id' hid')]
            exact ha.1 id' hid'
          · show read + (todo.map (db.delete id).weight).sum ≤ total
            rw [hweights]
            exact ha.2
      | pin | unpin => exact ha

/-! ### With and without overflow checks -/

/-- The two builds delete the same candidates, until the one with overflow checks panics. -/
theorem deleteCandidates_checks (self : EvictionManager) (overflowChecks : Bool) (left : ℕ)
    (candidates : List (String × ℕ)) :
    Config.Checks (self.deleteCandidates true left candidates)
      (self.deleteCandidates overflowChecks left candidates) := by
  induction candidates generalizing left with
  | nil => exact .ret _
  | cons candidate rest ih =>
      obtain ⟨id, size⟩ := candidate
      rw [EvictionManager.deleteCandidates, EvictionManager.deleteCandidates]
      split
      · exact .ret _
      refine .call fun deleted => ?_
      rcases deleted with e | _
      · exact .ret _
      by_cases hle : size ≤ left
      · have hsub : ∀ checks, EvictionManager.subU64 checks left size = some (left - size) :=
          fun _ => if_pos hle
        rw [hsub, hsub]
        exact ih _
      · have hnone : EvictionManager.subU64 true left size = none := if_neg hle
        rw [hnone]
        exact .panic _

/-- The two builds evict in the same way, until the one with overflow checks panics. -/
theorem run_checks (self : EvictionManager) (overflowChecks : Bool) :
    Config.Checks (self.run true) (self.run overflowChecks) := by
  refine .call fun total => ?_
  rcases total with e | (total : ℕ)
  · exact .ret _
  show Config.Checks (if total ≤ self.budgetBytes then _ else _)
    (if total ≤ self.budgetBytes then _ else _)
  split
  · exact .ret _
  refine .call fun ids => ?_
  rcases ids with e | ids
  · exact .ret _
  show Config.Checks (EvictionManager.collectCandidates ids [] >>= _)
    (EvictionManager.collectCandidates ids [] >>= _)
  refine (Config.Checks.refl _).bind fun candidates => ?_
  rcases candidates with e | candidates
  · exact .ret _
  · exact deleteCandidates_checks self overflowChecks _ _

/-! ### Safe evictions -/

variable {self : EvictionManager}

/-- Among harmless writes an eviction keeps its account. -/
theorem sound_playAll {moves : List EvictionMove}
    (hmoves : Config.Allowed BlobStore.answer BlobStore.write Calm (self.start true db) moves) :
    Config.Sound (fun h db => Accounted db (phase h)) accountContract (fun _ r => r = .ok ())
      ((self.start true db).playAll moves) := by
  refine Config.sound ?_ ?_ ⟨run_account self true, fun _ => trivial⟩ hmoves
  · rintro h db call k fault ha horder rfl
    obtain ⟨hsucceeded, ha'⟩ := ha.answer horder
    rw [phase_concat]
    exact ⟨⟨hsucceeded, ha'.balanced⟩, ha'⟩
  · intro cfg w hgoing ha hallowed
    exact ha.write (hallowed.resolve_left hgoing)

/-- Among harmless writes no subtraction underflows, so that both builds are in step. -/
theorem agrees_playAll (overflowChecks : Bool) {moves : List EvictionMove}
    (hmoves : Config.Allowed BlobStore.answer BlobStore.write Calm (self.start true db) moves) :
    ((self.start true db).playAll moves).rest ≠ .panic ∧
      Config.Agrees ((self.start true db).playAll moves)
        ((self.start overflowChecks db).playAll moves) := by
  have hsafe : ((self.start true db).playAll moves).rest ≠ .panic := by
    intro hpanic
    have hmeets := (sound_playAll hmoves).1
    rw [hpanic] at hmeets
    exact hmeets
  have hstart : Config.Agrees (self.start true db) (self.start overflowChecks db) :=
    ⟨rfl, rfl, run_checks self overflowChecks⟩
  exact ⟨hsafe, hstart.playAll hsafe⟩

/-- Among harmless writes an eviction that ends, ends without an error. -/
theorem ret_playAll {overflowChecks : Bool} {moves : List EvictionMove}
    (hmoves : Config.Allowed BlobStore.answer BlobStore.write Calm (self.start true db) moves)
    {a : ZingResult Unit}
    (hret : ((self.start overflowChecks db).playAll moves).rest = .ret a) : a = .ok () := by
  obtain ⟨hsafe, hagrees⟩ := agrees_playAll overflowChecks hmoves
  have hmeets := (sound_playAll hmoves).1
  have hrest := hagrees.rest
  rw [hret] at hrest
  generalize ((self.start true db).playAll moves).rest = p at hmeets hrest hsafe
  cases hrest with
  | ret => exact hmeets
  | panic => exact absurd rfl hsafe

/-- **Safe evictions**: among harmless writes no subtraction underflows, so that the eviction
does the same with overflow checks and without; it ends without an error, and it does end,
under every schedule that lets it go on again and again. -/
theorem eviction_safe (self : EvictionManager) (overflowChecks : Bool) (db : BlobStore) :
    (∀ moves : List EvictionMove,
      Config.Allowed BlobStore.answer BlobStore.write Calm (self.start true db) moves →
        ((self.start true db).playAll moves).rest ≠ .panic ∧
        ((self.start overflowChecks db).playAll moves).shared
          = ((self.start true db).playAll moves).shared ∧
        ∀ a, ((self.start overflowChecks db).playAll moves).rest = .ret a → a = .ok ()) ∧
    (∀ moves : ℕ → EvictionMove,
      (∀ n, Calm ((self.start true db).after BlobStore.answer BlobStore.write moves n)
        (moves n)) →
      (∀ n, ∃ m, n ≤ m ∧ ∃ fault, moves m = .own fault) →
        ∃ n, ((self.start overflowChecks db).after BlobStore.answer BlobStore.write moves n).rest
          = .ret (.ok ())) := by
  constructor
  · intro moves hmoves
    obtain ⟨hsafe, hagrees⟩ := agrees_playAll overflowChecks hmoves
    exact ⟨hsafe, hagrees.shared, fun a hret => ret_playAll hmoves hret⟩
  · intro moves hcalm hfair
    obtain ⟨n, hended⟩ := Config.exists_ended (self.start true db) hfair
    refine ⟨n, ?_⟩
    have hmoves := Config.allowed_range hcalm n
    obtain ⟨hsafe, hagrees⟩ := agrees_playAll overflowChecks hmoves
    rw [Config.after_eq_playAll] at hended ⊢
    have hrest := hagrees.rest
    rcases hended with ⟨a, hret⟩ | hpanic
    · obtain rfl := ret_playAll hmoves hret
      rw [hret] at hrest
      exact hrest.eq_ret
    · exact absurd hpanic hsafe

/-! ### Harmful writes, and harmless ones -/

/-- A blob is deleted between the listing and its turn. -/
def lateDelete : List EvictionMove :=
  [.own none, .own none, .other (.delete "a"), .own none, .own none]

/-- A blob of seven bytes is stored between the count and the listing; the eviction gets to
its deletion. -/
def latePut : List EvictionMove :=
  [.own none, .other (.put "A" [0, 0, 0, 0, 0, 0, 0]), .own none, .own none, .own none,
    .own none, .own none, .own none, .own none, .own none]

/-- A blob shrinks between the count and the listing, and another one is stored after it. -/
def harmlessWrites : List EvictionMove :=
  [.own none, .other (.delete "b"), .other (.put "b" [4, 5]), .own none, .own none,
    .other (.put "c" [0, 0, 0, 0, 0, 0, 0]), .own none, .own none, .own none, .own none]

/-- **Evictions are not safe**: a blob that vanishes makes the eviction fail; a blob that
comes makes it panic, or delete every blob, where one deletion more would do. -/
theorem not_eviction_safe :
    ((smallBudget.start true twoBlobs).playAll lateDelete).rest
      = .ret (.error (.cache "blob a has no size")) ∧
    ((smallBudget.start true twoBlobs).playAll latePut).rest = .panic ∧
    ((smallBudget.start false twoBlobs).playAll (latePut ++ [.own none, .own none])).rest
      = .ret (.ok ()) ∧
    ((smallBudget.start false twoBlobs).playAll (latePut ++ [.own none, .own none])).shared.get "a"
      = none ∧
    ((smallBudget.start false twoBlobs).playAll (latePut ++ [.own none, .own none])).shared.get "b"
      = none :=
  ⟨rfl, rfl, rfl, by decide, by decide⟩

theorem eviction_safe_harmlessWrites :
    (∀ overflowChecks, ∀ a,
      ((smallBudget.start overflowChecks twoBlobs).playAll harmlessWrites).rest = .ret a →
        a = .ok ()) ∧
    ((smallBudget.start true twoBlobs).playAll harmlessWrites).rest = .ret (.ok ()) ∧
    ∃ n, ((smallBudget.start false twoBlobs).after BlobStore.answer BlobStore.write
      (fun n => if n = 0 then .other (.put "c" [6]) else .own none) n).rest = .ret (.ok ()) := by
  have hallowed : Config.Allowed BlobStore.answer BlobStore.write Calm
      (smallBudget.start true twoBlobs) harmlessWrites :=
    ⟨rfl, .inr (by decide), .inr (by decide), rfl, rfl, .inr (by decide), rfl, rfl, rfl, rfl,
      trivial⟩
  refine ⟨fun overflowChecks a hret => ?_, rfl, ?_⟩
  · exact ((eviction_safe smallBudget overflowChecks twoBlobs).1 _ hallowed).2.2 a hret
  · refine (eviction_safe smallBudget false twoBlobs).2 _ (fun n => ?_) fun n => ?_
    · cases n with
      | zero => exact .inr trivial
      | succ n => rfl
    · exact ⟨n + 1, Nat.le_succ n, none, rfl⟩

end ZingCdn
