import Mathlib.Data.List.Induction
import Mathlib.Data.List.Nodup
import Mathlib.Logic.Function.Basic

/-!
# Matching Answers to Requests

A component that sends requests under keys and keeps, for each key, the channel of whoever
waits for the answer. Three things happen at its table: a request is opened under a key, an
answer to a key arrives, and somebody is told something directly without a request. An
answer goes to the channel of its key, once; an answer to a key that is not open goes to
nobody.

With keys and channels that are never used twice, the table does what it is for: no channel
is told anything twice, whatever a channel is told is the answer to the key it was opened
under, and an answer to an open key is not lost.

## Main results

* `Table.of_fresh`: the invariant of the table.
* `mem_requests_of_reply`: an answer goes to the channel that its key was opened for.
* `answered_of_mem`: after its answer a request is answered and closed.
* `told_requester`: a requester is told the first answer to its key, and nothing else.
-/

namespace Correlation

variable {K C M : Type}

/-- What happens at the table. -/
inductive Act (K C M : Type)
  | request (key : K) (channel : C)
  | answer (key : K) (msg : M)
  | direct (channel : C) (msg : M)
deriving DecidableEq

/-- The request that is opened. -/
def Act.request? : Act K C M → Option (K × C)
  | .request key channel => some (key, channel)
  | _ => none

/-- The channel that comes into play. -/
def Act.channel? : Act K C M → Option C
  | .request _ channel | .direct channel _ => some channel
  | .answer .. => none

/-- The requests opened so far. -/
def requests (acts : List (Act K C M)) : List (K × C) := acts.filterMap Act.request?

/-- The channels in play so far. -/
def channels (acts : List (Act K C M)) : List C := acts.filterMap Act.channel?

@[simp] theorem requests_append (acts acts' : List (Act K C M)) :
    requests (acts ++ acts') = requests acts ++ requests acts' := List.filterMap_append

@[simp] theorem channels_append (acts acts' : List (Act K C M)) :
    channels (acts ++ acts') = channels acts ++ channels acts' := List.filterMap_append

/-- The channel of a request comes into play with it. -/
theorem Act.channel_of_request {act : Act K C M} {key : K} {channel : C}
    (h : act.request? = some (key, channel)) : act.channel? = some channel := by
  cases act with
  | request key' channel' =>
      obtain ⟨rfl, rfl⟩ := Prod.mk.inj (Option.some.inj h)
      rfl
  | answer | direct => cases h

theorem mem_channels_of_mem_requests {acts : List (Act K C M)} {key : K} {channel : C}
    (h : (key, channel) ∈ requests acts) : channel ∈ channels acts := by
  obtain ⟨act, hact, hrequest⟩ := List.mem_filterMap.mp h
  exact List.mem_filterMap.mpr ⟨act, hact, Act.channel_of_request hrequest⟩

variable [DecidableEq K]

/-- The table after something has happened. -/
def Act.next (pending : K → Option C) : Act K C M → K → Option C
  | .request key channel => Function.update pending key (some channel)
  | .answer key _ => Function.update pending key none
  | .direct .. => pending

/-- Who is told what. -/
def Act.replies (pending : K → Option C) : Act K C M → List (C × M)
  | .request .. => []
  | .answer key msg => (pending key).toList.map fun channel => (channel, msg)
  | .direct channel msg => [(channel, msg)]

/-- The table after several things have happened. -/
def after (pending : K → Option C) (acts : List (Act K C M)) : K → Option C :=
  acts.foldl Act.next pending

/-- Who is told what while several things happen. -/
def replies (pending : K → Option C) : List (Act K C M) → List (C × M)
  | [] => []
  | act :: acts => act.replies pending ++ replies (act.next pending) acts

theorem after_append (pending : K → Option C) (acts acts' : List (Act K C M)) :
    after pending (acts ++ acts') = after (after pending acts) acts' := List.foldl_append

theorem replies_append (pending : K → Option C) (acts acts' : List (Act K C M)) :
    replies pending (acts ++ acts')
      = replies pending acts ++ replies (after pending acts) acts' := by
  induction acts generalizing pending with
  | nil => rfl
  | cons act acts ih =>
      rw [List.cons_append, replies, replies, ih, List.append_assoc]
      rfl

/-- Telling people directly leaves the table as it is. -/
theorem after_direct (pending : K → Option C) (l : List (C × M)) :
    after pending (l.map fun reply => .direct reply.1 reply.2) = pending := by
  induction l with
  | nil => rfl
  | cons reply l ih => exact ih

/-- They are told just that. -/
theorem replies_direct (pending : K → Option C) (l : List (C × M)) :
    replies pending (l.map fun reply => .direct reply.1 reply.2) = l := by
  induction l with
  | nil => rfl
  | cons reply l ih => exact congrArg (reply :: ·) ih

omit [DecidableEq K] in
/-- Nothing is requested by it. -/
theorem requests_direct (l : List (C × M)) :
    requests (l.map fun reply => (.direct reply.1 reply.2 : Act K C M)) = [] := by
  induction l with
  | nil => rfl
  | cons reply l ih => exact ih

/-- Who is told something is told it by one of the acts. -/
theorem exists_of_mem_replies {pending : K → Option C} {acts : List (Act K C M)} {channel : C}
    {msg : M} (h : (channel, msg) ∈ replies pending acts) :
    ∃ acts₁ act acts₂, acts = acts₁ ++ act :: acts₂ ∧
      (channel, msg) ∈ act.replies (after pending acts₁) := by
  induction acts generalizing pending with
  | nil => cases h
  | cons act acts ih =>
      rcases List.mem_append.mp h with hact | hacts
      · exact ⟨[], act, acts, rfl, hact⟩
      · obtain ⟨acts₁, act', acts₂, rfl, hact⟩ := ih hacts
        exact ⟨act :: acts₁, act', acts₂, rfl, hact⟩

/-- The table from the start. -/
abbrev table (acts : List (Act K C M)) : K → Option C := after (fun _ => none) acts

/-- The channels that have been told something. -/
def replied (acts : List (Act K C M)) : List C := (replies (fun _ => none) acts).map Prod.fst

theorem replied_append (acts acts' : List (Act K C M)) :
    replied (acts ++ acts') = replied acts ++ (replies (table acts) acts').map Prod.fst := by
  rw [replied, replies_append, List.map_append]
  rfl

/-- No key and no channel is used twice. -/
structure Fresh (acts : List (Act K C M)) : Prop where
  keys : ((requests acts).map Prod.fst).Nodup
  channels : (channels acts).Nodup

omit [DecidableEq K] in
theorem Fresh.of_append {acts acts' : List (Act K C M)} (h : Fresh (acts ++ acts')) :
    Fresh acts := by
  obtain ⟨hkeys, hchannels⟩ := h
  rw [requests_append, List.map_append] at hkeys
  rw [channels_append] at hchannels
  exact ⟨hkeys.of_append_left, hchannels.of_append_left⟩

/-- An element that stands for something no other element stands for is in one place. -/
theorem split_unique {A B : Type} {f : A → Option B} {l₁ l₂ l₁' l₂' : List A} {x x' : A} {b : B}
    (hnodup : ((l₁ ++ x :: l₂).filterMap f).Nodup) (heq : l₁ ++ x :: l₂ = l₁' ++ x' :: l₂')
    (hx : f x = some b) (hx' : f x' = some b) : l₁ = l₁' ∧ x = x' ∧ l₂ = l₂' := by
  have hhead : ∀ {y : A} {l : List A}, ((y :: l).filterMap f).Nodup → f y = some b →
      ∀ z ∈ l, f z ≠ some b := by
    intro y l hnodup hy z hz hfz
    rw [List.filterMap_cons_some hy, List.nodup_cons] at hnodup
    exact hnodup.1 (List.mem_filterMap.mpr ⟨z, hz, hfz⟩)
  induction l₁ generalizing l₁' with
  | nil =>
      cases l₁' with
      | nil =>
          obtain ⟨rfl, rfl⟩ := List.cons.inj heq
          exact ⟨rfl, rfl, rfl⟩
      | cons y ys =>
          obtain ⟨rfl, rfl⟩ := List.cons.inj heq
          exact absurd hx' (hhead hnodup hx x' (by simp))
  | cons z zs ih =>
      cases l₁' with
      | nil =>
          obtain ⟨rfl, rfl⟩ := List.cons.inj heq
          exact absurd hx (hhead hnodup hx' x (by simp))
      | cons y ys =>
          obtain ⟨rfl, htail⟩ := List.cons.inj heq
          have hnodup' := hnodup.sublist ((List.sublist_cons_self z _).filterMap f)
          obtain ⟨rfl, hxx, hl⟩ := ih hnodup' htail
          exact ⟨rfl, hxx, hl⟩

/-- The invariant of the table: open requests have not been answered, all others have, and
no channel is told anything twice. -/
structure Table (acts : List (Act K C M)) : Prop where
  opened : ∀ key channel, table acts key = some channel →
    (key, channel) ∈ requests acts ∧ channel ∉ replied acts
  kept : ∀ key channel, (key, channel) ∈ requests acts →
    table acts key = some channel ∨ channel ∈ replied acts
  played : ∀ channel ∈ replied acts, channel ∈ channels acts
  once : (replied acts).Nodup

/-! ### The invariant is kept -/

variable {acts : List (Act K C M)}

omit [DecidableEq K] in
/-- The channels of the requests are among those in play, in order. -/
theorem requests_channels_sublist (acts : List (Act K C M)) :
    ((requests acts).map Prod.snd).Sublist (channels acts) := by
  induction acts with
  | nil => exact List.Sublist.slnil
  | cons act acts ih =>
      cases act with
      | request key channel => exact ih.cons_cons channel
      | answer key msg => exact ih
      | direct channel msg => exact ih.cons channel

omit [DecidableEq K] in
/-- A channel waits under one key only. -/
theorem Fresh.key_eq (hfresh : Fresh acts) {key key' : K} {channel : C}
    (h : (key, channel) ∈ requests acts) (h' : (key', channel) ∈ requests acts) : key = key' := by
  have hnodup := hfresh.channels.sublist (requests_channels_sublist acts)
  exact congrArg Prod.fst (List.inj_on_of_nodup_map hnodup h h' rfl)

omit [DecidableEq K] in
/-- A key is opened for one channel only. -/
theorem Fresh.channel_eq (hfresh : Fresh acts) {key : K} {channel channel' : C}
    (h : (key, channel) ∈ requests acts) (h' : (key, channel') ∈ requests acts) :
    channel = channel' :=
  congrArg Prod.snd (List.inj_on_of_nodup_map hfresh.keys h h' rfl)

/-- A request keeps the invariant. -/
theorem Table.request (ht : Table acts) {key : K} {channel : C}
    (hfresh : Fresh (acts ++ [.request key channel])) :
    Table (acts ++ [.request key channel]) := by
  obtain ⟨hkeys, hchannels⟩ := hfresh
  rw [requests_append, List.map_append, List.nodup_append] at hkeys
  rw [channels_append, List.nodup_append] at hchannels
  have hkey : ∀ channel', (key, channel') ∉ requests acts := fun channel' hmem =>
    hkeys.2.2 key (List.mem_map_of_mem hmem) key List.mem_cons_self rfl
  have hchannel : channel ∉ channels acts := fun hmem =>
    hchannels.2.2 channel hmem channel List.mem_cons_self rfl
  have hreplied : replied (acts ++ [.request key channel]) = replied acts := by
    rw [replied_append]
    exact List.append_nil _
  have htable : table (acts ++ [.request key channel])
      = Function.update (table acts) key (some channel) := after_append _ _ _
  have hrequests : requests (acts ++ [.request key channel])
      = requests acts ++ [(key, channel)] := requests_append _ _
  refine ⟨fun key' channel' hopen => ?_, fun key' channel' hmem => ?_, fun channel' hmem => ?_, ?_⟩
  · rw [htable] at hopen
    rw [hrequests, hreplied]
    by_cases heq : key' = key
    · subst heq
      rw [Function.update_self] at hopen
      obtain rfl := Option.some.inj hopen
      exact ⟨List.mem_append_right _ List.mem_cons_self, fun hmem => hchannel (ht.played _ hmem)⟩
    · rw [Function.update_of_ne heq] at hopen
      obtain ⟨hmem, hnot⟩ := ht.opened key' channel' hopen
      exact ⟨List.mem_append_left _ hmem, hnot⟩
  · rw [hrequests, List.mem_append, List.mem_singleton] at hmem
    rw [htable, hreplied]
    rcases hmem with hmem | heq
    · have hne : key' ≠ key := fun heq => hkey channel' (heq ▸ hmem)
      rw [Function.update_of_ne hne]
      exact ht.kept key' channel' hmem
    · obtain ⟨rfl, rfl⟩ := Prod.mk.inj heq
      exact .inl (Function.update_self ..)
  · rw [channels_append]
    exact List.mem_append_left _ (ht.played channel' (hreplied ▸ hmem))
  · rw [hreplied]
    exact ht.once

/-- An answer keeps the invariant. -/
theorem Table.answer (ht : Table acts) (hfresh : Fresh acts) (key : K) (msg : M) :
    Table (acts ++ [.answer key msg]) := by
  have hrequests : requests (acts ++ [.answer key msg]) = requests acts := by
    rw [requests_append]
    exact List.append_nil _
  have hchannels : channels (acts ++ [.answer key msg]) = channels acts := by
    rw [channels_append]
    exact List.append_nil _
  have htable : table (acts ++ [.answer key msg]) = Function.update (table acts) key none :=
    after_append _ _ _
  have hreplied : ∀ channel, channel ∈ replied (acts ++ [.answer key msg]) ↔
      channel ∈ replied acts ∨ table acts key = some channel := by
    intro channel
    rw [replied_append, List.mem_append]
    simp [replies, Act.replies]
  refine ⟨fun key' channel hopen => ?_, fun key' channel hmem => ?_, fun channel hmem => ?_, ?_⟩
  · rw [htable] at hopen
    by_cases heq : key' = key
    · subst heq
      rw [Function.update_self] at hopen
      cases hopen
    · rw [Function.update_of_ne heq] at hopen
      obtain ⟨hmem, hnot⟩ := ht.opened key' channel hopen
      rw [hrequests, hreplied]
      refine ⟨hmem, ?_⟩
      rintro (hold | hnew)
      · exact hnot hold
      · exact heq (hfresh.key_eq hmem (ht.opened key channel hnew).1)
  · rw [hrequests] at hmem
    rw [htable, hreplied]
    rcases ht.kept key' channel hmem with hopen | hdone
    · by_cases heq : key' = key
      · exact .inr (.inr (heq ▸ hopen))
      · rw [Function.update_of_ne heq]
        exact .inl hopen
    · exact .inr (.inl hdone)
  · rw [hchannels]
    rcases (hreplied channel).mp hmem with hold | hnew
    · exact ht.played channel hold
    · exact mem_channels_of_mem_requests (ht.opened key channel hnew).1
  · rw [replied_append, List.nodup_append]
    refine ⟨ht.once, ?_, ?_⟩
    · have htold : (replies (table acts) [.answer key msg]).map Prod.fst
          = (table acts key).toList := by
        simp [replies, Act.replies, Function.comp_def]
      rw [htold]
      cases table acts key with
      | none => exact List.nodup_nil
      | some channel => exact List.nodup_singleton channel
    · rintro channel hold _ hnew rfl
      have hopen : table acts key = some channel := by simpa [replies, Act.replies] using hnew
      exact (ht.opened key channel hopen).2 hold

/-- Telling somebody directly keeps the invariant. -/
theorem Table.direct (ht : Table acts) {channel : C} {msg : M}
    (hfresh : Fresh (acts ++ [.direct channel msg])) : Table (acts ++ [.direct channel msg]) := by
  have hchannels := hfresh.channels
  rw [channels_append, List.nodup_append] at hchannels
  have hchannel : channel ∉ channels acts := fun hmem =>
    hchannels.2.2 channel hmem channel List.mem_cons_self rfl
  have hrequests : requests (acts ++ [.direct channel msg]) = requests acts := by
    rw [requests_append]
    exact List.append_nil _
  have htable : table (acts ++ [.direct channel msg]) = table acts := after_append _ _ _
  have hreplied : replied (acts ++ [.direct channel msg]) = replied acts ++ [channel] :=
    replied_append _ _
  refine ⟨fun key channel' hopen => ?_, fun key channel' hmem => ?_, fun channel' hmem => ?_, ?_⟩
  · rw [htable] at hopen
    obtain ⟨hmem, hnot⟩ := ht.opened key channel' hopen
    rw [hrequests, hreplied, List.mem_append, List.mem_singleton]
    refine ⟨hmem, ?_⟩
    rintro (hold | rfl)
    · exact hnot hold
    · exact hchannel (mem_channels_of_mem_requests hmem)
  · rw [hrequests] at hmem
    rw [htable, hreplied, List.mem_append]
    rcases ht.kept key channel' hmem with hopen | hdone
    · exact .inl hopen
    · exact .inr (.inl hdone)
  · rw [channels_append, List.mem_append]
    rw [hreplied, List.mem_append] at hmem
    rcases hmem with hold | hnew
    · exact .inl (ht.played channel' hold)
    · exact .inr hnew
  · rw [hreplied, List.nodup_append]
    refine ⟨ht.once, List.nodup_singleton channel, ?_⟩
    rintro channel' hold _ hnew rfl
    rw [List.mem_singleton] at hnew
    exact hchannel (hnew ▸ ht.played channel' hold)

/-- **The table does what it is for**, when no key and no channel is used twice. -/
theorem Table.of_fresh (hfresh : Fresh acts) : Table acts := by
  induction acts using List.reverseRecOn with
  | nil =>
      exact ⟨fun _ _ hopen => (by cases hopen), fun _ _ hmem => (by cases hmem),
        fun _ hmem => (by cases hmem), List.nodup_nil⟩
  | append_singleton acts act ih =>
      have ht := ih hfresh.of_append
      cases act with
      | request key channel => exact ht.request hfresh
      | answer key msg => exact ht.answer hfresh.of_append key msg
      | direct channel msg => exact ht.direct hfresh

/-! ### Answers -/

/-- **Answers are matched**: whoever is told something by an answer waits under its key. -/
theorem mem_requests_of_reply (hfresh : Fresh acts) {key : K} {msg msg' : M} {channel : C}
    (h : (channel, msg') ∈ (Act.answer key msg : Act K C M).replies (table acts)) :
    (key, channel) ∈ requests acts ∧ msg' = msg := by
  obtain ⟨channel', hopen, heq⟩ := List.mem_map.mp h
  obtain ⟨rfl, rfl⟩ := Prod.mk.inj heq
  exact ⟨((Table.of_fresh hfresh).opened key channel' (Option.mem_toList.mp hopen)).1, rfl⟩

/-- **Answers are not lost**: from its answer on, a request is answered and closed. -/
theorem answered_of_mem {acts' : List (Act K C M)} {key : K} {msg : M} {channel : C}
    (hfresh : Fresh (acts ++ .answer key msg :: acts')) (hmem : (key, channel) ∈ requests acts) :
    channel ∈ replied (acts ++ [.answer key msg]) ∧
      table (acts ++ .answer key msg :: acts') key = none ∧
      ∀ key', table (acts ++ .answer key msg :: acts') key' ≠ some channel := by
  have hsplit : acts ++ .answer key msg :: acts' = acts ++ [.answer key msg] ++ acts' :=
    List.append_cons acts _ acts'
  have hrequests : (key, channel) ∈ requests (acts ++ [.answer key msg]) := by
    rw [requests_append]
    exact List.mem_append_left _ hmem
  have hanswered : channel ∈ replied (acts ++ [.answer key msg]) := by
    rw [hsplit] at hfresh
    refine ((Table.of_fresh hfresh.of_append).kept key channel hrequests).resolve_left ?_
    rw [table, after_append]
    exact fun hopen => by simp [after, Act.next] at hopen
  have hfinal : channel ∈ replied (acts ++ .answer key msg :: acts') := by
    rw [hsplit, replied_append]
    exact List.mem_append_left _ hanswered
  have ht := Table.of_fresh hfresh
  have hclosed : ∀ key', table (acts ++ .answer key msg :: acts') key' ≠ some channel :=
    fun key' hopen => (ht.opened key' channel hopen).2 hfinal
  refine ⟨hanswered, ?_, hclosed⟩
  rcases hopen : table (acts ++ .answer key msg :: acts') key with - | channel'
  · rfl
  · have hmem' : (key, channel) ∈ requests (acts ++ .answer key msg :: acts') := by
      rw [requests_append]
      exact List.mem_append_left _ hmem
    obtain rfl := hfresh.channel_eq hmem' (ht.opened key channel' hopen).1
    exact absurd hopen (hclosed key)

/-! ### What a channel is told -/

section Told

variable {act : Act K C M} {pending : K → Option C} {key : K} {channel : C}

omit [DecidableEq K] in
theorem not_mem_channels_cons :
    channel ∉ channels (act :: acts) ↔ act.channel? ≠ some channel ∧ channel ∉ channels acts := by
  simp [channels, List.mem_filterMap]

/-- Whoever waits after an act waited before it, or the act is the request. -/
theorem Act.next_eq_some (h : act.next pending key = some channel) :
    pending key = some channel ∨ act.request? = some (key, channel) := by
  cases act with
  | request key' channel' =>
      rw [next] at h
      by_cases hkey : key = key'
      · subst hkey
        rw [Function.update_self] at h
        exact .inr (congrArg (fun c => some (key, c)) (Option.some.inj h))
      · rw [Function.update_of_ne hkey] at h
        exact .inl h
  | answer key' msg =>
      rw [next] at h
      by_cases hkey : key = key'
      · subst hkey
        rw [Function.update_self] at h
        cases h
      · rw [Function.update_of_ne hkey] at h
        exact .inl h
  | direct channel' msg => exact .inl h

omit [DecidableEq K] in
/-- A channel that does not come into play with an act is told something by it only if it
waits. -/
theorem Act.mem_replies (hnew : act.channel? ≠ some channel) {msg : M}
    (h : (channel, msg) ∈ act.replies pending) :
    ∃ key, act = .answer key msg ∧ pending key = some channel := by
  cases act with
  | request key' channel' => cases h
  | answer key' msg' =>
      obtain ⟨channel', hopen, heq⟩ := List.mem_map.mp h
      obtain ⟨rfl, rfl⟩ := Prod.mk.inj heq
      exact ⟨key', rfl, Option.mem_toList.mp hopen⟩
  | direct channel' msg' =>
      obtain ⟨rfl, rfl⟩ := Prod.mk.inj (List.mem_singleton.mp h)
      exact absurd rfl hnew

variable [DecidableEq C]

/-- What a channel is told. -/
def told (channel : C) (l : List (C × M)) : List M :=
  l.filterMap fun reply => if reply.1 = channel then some reply.2 else none

/-- The answers to a key. -/
def answersTo (key : K) (acts : List (Act K C M)) : List M :=
  acts.filterMap fun
    | .answer key' msg => if key' = key then some msg else none
    | _ => none

omit [DecidableEq K] in
theorem told_append (l l' : List (C × M)) :
    told channel (l ++ l') = told channel l ++ told channel l' := List.filterMap_append

omit [DecidableEq K] in
theorem told_eq_nil {l : List (C × M)} (h : ∀ msg, (channel, msg) ∉ l) : told channel l = [] := by
  refine List.filterMap_eq_nil_iff.mpr fun reply hreply => ?_
  refine if_neg ?_
  rintro rfl
  exact h reply.2 hreply

/-- A channel that does not wait, and does not come into play, is told nothing. -/
theorem told_of_not_waiting (hwaits : ∀ key, pending key ≠ some channel)
    (hnew : channel ∉ channels acts) : told channel (replies pending acts) = [] := by
  induction acts generalizing pending with
  | nil => rfl
  | cons act acts ih =>
      obtain ⟨hact, hacts⟩ := not_mem_channels_cons.mp hnew
      rw [replies, told_append, told_eq_nil, List.nil_append]
      · refine ih (fun key' hnext => ?_) hacts
        exact (Act.next_eq_some hnext).elim (hwaits key')
          fun hrequest => hact (Act.channel_of_request hrequest)
      · intro msg hmem
        obtain ⟨key', -, hopen⟩ := Act.mem_replies hact hmem
        exact hwaits key' hopen

/-- **The first answer counts**: a channel that waits under a key is told the first answer to
it, and nothing after that. -/
theorem told_of_waiting (hopen : pending key = some channel)
    (honly : ∀ key', pending key' = some channel → key' = key)
    (hkey : key ∉ (requests acts).map Prod.fst) (hnew : channel ∉ channels acts) :
    told channel (replies pending acts) = (answersTo key acts).head?.toList := by
  induction acts generalizing pending with
  | nil => rfl
  | cons act acts ih =>
      obtain ⟨hact, hacts⟩ := not_mem_channels_cons.mp hnew
      have hkept : ∀ key', act.next pending key' = some channel → key' = key := fun key' hnext =>
        (Act.next_eq_some hnext).elim (honly key')
          fun hrequest => absurd (Act.channel_of_request hrequest) hact
      rw [replies, told_append]
      by_cases hanswer : ∃ msg, act = .answer key msg
      · obtain ⟨msg, rfl⟩ := hanswer
        have hclosed : ∀ key',
            (Act.answer key msg : Act K C M).next pending key' ≠ some channel := by
          intro key' hnext
          obtain rfl := hkept key' hnext
          rw [Act.next, Function.update_self] at hnext
          cases hnext
        rw [told_of_not_waiting hclosed hacts]
        simp [told, answersTo, Act.replies, hopen]
      · have hnone : told channel (act.replies pending) = [] := by
          refine told_eq_nil fun msg hmem => ?_
          obtain ⟨key', heq, hwaits⟩ := Act.mem_replies hact hmem
          obtain rfl := honly key' hwaits
          exact hanswer ⟨msg, heq⟩
        have hrest : answersTo key (act :: acts) = answersTo key acts := by
          cases act with
          | request | direct => rfl
          | answer key' msg =>
              have hne : key' ≠ key := fun heq => hanswer ⟨msg, heq ▸ rfl⟩
              simp [answersTo, hne]
        have hkey' : key ∉ (requests acts).map Prod.fst := fun hmem => hkey (by
          rw [← List.singleton_append, requests_append, List.map_append]
          exact List.mem_append_right _ hmem)
        rw [hnone, hrest, List.nil_append]
        refine ih ?_ hkept hkey' hacts
        cases act with
        | request key' channel' =>
            have hne : key ≠ key' := fun heq => hkey (heq ▸ List.mem_cons_self)
            rw [Act.next, Function.update_of_ne hne, hopen]
        | answer key' msg =>
            have hne : key ≠ key' := fun heq => hanswer ⟨msg, heq ▸ rfl⟩
            rw [Act.next, Function.update_of_ne hne, hopen]
        | direct => exact hopen

/-- **What a requester is told**: the first answer to its key after the request, and nothing
else. -/
theorem told_requester {acts₁ acts₂ : List (Act K C M)}
    (hfresh : Fresh (acts₁ ++ .request key channel :: acts₂)) :
    told channel (replies (fun _ => none) (acts₁ ++ .request key channel :: acts₂))
      = (answersTo key acts₂).head?.toList := by
  have hkeys := hfresh.keys
  have hchannels := hfresh.channels
  rw [requests_append, List.map_append, List.nodup_append] at hkeys
  rw [channels_append, List.nodup_append] at hchannels
  have hbefore : channel ∉ channels acts₁ := fun hmem =>
    hchannels.2.2 channel hmem channel List.mem_cons_self rfl
  have hnobody : ∀ key', table acts₁ key' ≠ some channel := fun key' hopen =>
    hbefore (mem_channels_of_mem_requests
      ((Table.of_fresh hfresh.of_append).opened key' channel hopen).1)
  have hearlier : told channel (replies (fun _ => none) acts₁) = [] :=
    told_of_not_waiting (fun _ => (Option.some_ne_none channel).symm) hbefore
  rw [replies_append, told_append, hearlier, List.nil_append]
  have hopened : replies (table acts₁) (.request key channel :: acts₂)
      = replies (Function.update (table acts₁) key (some channel)) acts₂ := rfl
  rw [hopened]
  refine told_of_waiting (Function.update_self ..) (fun key' hopen => ?_)
    (List.nodup_cons.mp hkeys.2.1).1 (List.nodup_cons.mp hchannels.2.1).1
  by_contra hne
  rw [Function.update_of_ne hne] at hopen
  exact hnobody key' hopen

end Told

end Correlation
