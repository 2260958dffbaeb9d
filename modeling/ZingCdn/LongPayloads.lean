import ZingCdn.FrameRoundTrip

/-!
# Payloads Longer Than the Header Counts

A have response narrows the length of its payload to 32 bits, but sends the payload whole. The
reader takes as many bytes as the narrowed length says. Without overflow checks the sum with the
bytes before the payload may wrap as well; what is left of it is then below their number, and
the reader refuses it.

So the reader sees the payload cut to its length modulo `2 ^ 32`, unless that is above its limit
on messages: a payload of `2 ^ 32` bytes is read as the empty one.

## Main results

* `no_silent_truncation_iff`: the payloads that are read whole or refused.
-/

namespace ZingCdn

/-- Whatever comes behind it, what was written is read as the message or refused. -/
def NotTruncated {α : Type} (read : Decoder α) (written : Option Bytes) (message : α) : Prop :=
  ∃ bytes, written = some bytes ∧ ∀ rest,
    (∃ rest', read (bytes ++ rest) = .ok (message, rest')) ∨ ∃ e, read (bytes ++ rest) = .error e

/-- The reader sees the payload cut to its narrowed length, if that and the bytes before the
payload are within the limit, and refuses it otherwise. -/
def ReadsNarrowed {α : Type} (before : ℕ) (read : Decoder α) (written : Option Bytes)
    (have_ : Bytes → α) (data : Bytes) : Prop :=
  ∃ bytes, written = some bytes ∧ ∀ rest,
    (before + asU32 data.length ≤ maxMessageSize →
      read (bytes ++ rest) =
        .ok (have_ (data.take (asU32 data.length)), data.drop (asU32 data.length) ++ rest)) ∧
    (maxMessageSize < before + asU32 data.length → ∃ e, read (bytes ++ rest) = .error e)

/-- Cutting a payload to its narrowed length changes it unless 32 bits count it. -/
theorem take_asU32_eq_self_iff {data : Bytes} :
    data.take (asU32 data.length) = data ↔ data.length < 4294967296 := by
  rw [List.take_eq_self_iff, asU32]
  omega

/-- A frame whose payload fits is read as far as the narrowed length goes, and what is behind is
left in the stream. -/
theorem ReadsNarrowed.of_fits {α : Type} {before : ℕ} {read : Decoder α} {written : Option Bytes}
    {have_ : Bytes → α} {data front : Bytes} (hwritten : written = some (front ++ data))
    (hread : ∀ payload rest : Bytes, payload.length = asU32 data.length →
      ∃ e, read ((front ++ payload) ++ rest) =
        if before + asU32 data.length ≤ maxMessageSize then .ok (have_ payload, rest)
        else .error e) :
    ReadsNarrowed before read written have_ data := by
  refine ⟨_, hwritten, fun rest => ?_⟩
  have hsplit : (front ++ data) ++ rest =
      (front ++ data.take (asU32 data.length)) ++ (data.drop (asU32 data.length) ++ rest) := by
    rw [List.append_assoc, List.append_assoc, ← List.append_assoc (data.take _),
      List.take_append_drop]
  have hlen : (data.take (asU32 data.length)).length = asU32 data.length :=
    List.length_take_of_le (Nat.mod_le _ _)
  obtain ⟨e, he⟩ := hread _ (data.drop (asU32 data.length) ++ rest) hlen
  rw [hsplit, he]
  exact ⟨fun hshort => if_pos hshort, fun hlong => ⟨_, if_neg (Nat.not_le.mpr hlong)⟩⟩

/-- A frame that is refused may only belong to a payload beyond the limit. -/
theorem ReadsNarrowed.of_refused {α : Type} {before : ℕ} {read : Decoder α}
    {written : Option Bytes} {have_ : Bytes → α} {data bytes : Bytes}
    (hwritten : written = some bytes) (hlong : maxMessageSize < before + asU32 data.length)
    (hread : ∀ rest, ∃ e, read (bytes ++ rest) = .error e) :
    ReadsNarrowed before read written have_ data :=
  ⟨bytes, hwritten, fun rest => ⟨fun hshort => by omega, fun _ => hread rest⟩⟩

/-- A reader that sees the narrowed payload is right about those that 32 bits count and about
those it refuses. -/
theorem ReadsNarrowed.notTruncated_iff {α : Type} {before : ℕ} {read : Decoder α}
    {written : Option Bytes} {have_ : Bytes → α} {data : Bytes}
    (h : ReadsNarrowed before read written have_ data) (hinj : Function.Injective have_) :
    NotTruncated read written (have_ data) ↔
      data.length < 4294967296 ∨ maxMessageSize < before + data.length % 4294967296 := by
  obtain ⟨bytes, hwritten, hread⟩ := h
  rw [← asU32]
  constructor
  · rintro ⟨bytes', hwritten', hfaithful⟩
    obtain rfl := Option.some.inj (hwritten.symm.trans hwritten')
    by_cases hlong : maxMessageSize < before + asU32 data.length
    · exact .inr hlong
    · left
      have hok := (hread []).1 (Nat.not_lt.mp hlong)
      rcases hfaithful [] with ⟨rest', hmessage⟩ | ⟨e, herror⟩
      · obtain ⟨hsame, -⟩ := Prod.mk.inj (Except.ok.inj (hok.symm.trans hmessage))
        exact take_asU32_eq_self_iff.mp (hinj hsame)
      · cases hok.symm.trans herror
  · intro hshort
    refine ⟨bytes, hwritten, fun rest => ?_⟩
    by_cases hlong : maxMessageSize < before + asU32 data.length
    · exact .inr ((hread rest).2 hlong)
    · have hdata := hshort.resolve_right hlong
      have hok := (hread rest).1 (Nat.not_lt.mp hlong)
      rw [take_asU32_eq_self_iff.mpr hdata] at hok
      exact .inl ⟨_, hok⟩

/-! ### What the readers see -/

theorem asU32_lt (n : ℕ) : asU32 n < 4294967296 := Nat.mod_lt _ (by omega)

/-- Without overflow checks the sum wraps. -/
theorem addU32_of_le {a b : ℕ} (h : 4294967296 ≤ a + b) :
    addU32 false a b = some (a + b - 4294967296) := by
  rw [addU32, if_neg (by omega)]
  rfl

/-- A frame of no bytes is refused. -/
theorem readFrame_zero {α : Type} {invalidLength : ℕ → String}
    {decode : ℕ → Bytes → Except CodecError α} (rest : Bytes) :
    readFrame (upToMax 1) invalidLength decode (writeU32Le 0 ++ rest) =
      .error (.invalidData (invalidLength 0)) :=
  readFrame_append List.length_nil (by omega) rest

/-- The range and sliver protocols, with one byte before the payload. -/
theorem readsNarrowed_rest {α : Type} {invalidLength : ℕ → String} {unknown : String}
    {notFound : α} {have_ : Bytes → α} {data : Bytes} :
    ReadsNarrowed 1 (readFrame (upToMax 1) invalidLength
      (decodeStatus unknown notFound (decodeRest have_))) (writeStatus false (some data))
      have_ data := by
  have hmax : maxMessageSize = 67108864 := rfl
  have hlt : asU32 data.length < 4294967296 := asU32_lt _
  set narrowed : ℕ := asU32 data.length with hnarrowed
  by_cases hfits : 1 + narrowed < 4294967296
  · have hwritten : writeStatus false (some data) =
        some ((writeU32Le (1 + narrowed) ++ [1]) ++ data) := by
      rw [writeStatus, ← hnarrowed, addU32_of_lt hfits, List.append_assoc]
      rfl
    refine .of_fits hwritten fun payload rest hlen => ?_
    rw [← hnarrowed] at hlen ⊢
    rw [← hlen, List.append_assoc (writeU32Le _)]
    exact ⟨_, readFrame_rest (by rwa [hlen]) rest⟩
  · -- the sum wraps to nothing
    have hwrap : 1 + narrowed - 4294967296 = 0 := by omega
    have hwritten : writeStatus false (some data) = some (writeU32Le 0 ++ ([1] ++ data)) := by
      rw [writeStatus, ← hnarrowed, addU32_of_le (Nat.not_lt.mp hfits), hwrap]
      rfl
    refine .of_refused hwritten (by omega) fun rest => ?_
    rw [List.append_assoc]
    exact ⟨_, readFrame_zero _⟩

/-- A frame that has no room for the repeated length is refused. -/
theorem BinaryProtocolCodec.readResponse_short {len : ℕ} (hlen : len < 5) {body : Bytes}
    (hbody : 4 ≤ body.length) (rest : Bytes) :
    ∃ e, readResponse (writeU32Le len ++ ((1 :: body) ++ rest)) = .error e := by
  cases len with
  | zero => exact ⟨_, readFrame_zero _⟩
  | succ len =>
      have hsize : (1 :: body.take len).length = len + 1 := by
        rw [List.length_cons, List.length_take_of_le (by omega)]
      have hframe : (1 :: body) ++ rest = (1 :: body.take len) ++ (body.drop len ++ rest) := by
        rw [List.cons_append, List.cons_append, ← List.append_assoc, List.take_append_drop]
      have hshort : decodeHave (len + 1) (1 :: body.take len) =
          .error (.invalidData "have response too short") := if_pos hlen
      have hmax : len + 1 ≤ maxMessageSize := by
        rw [maxMessageSize]
        omega
      refine ⟨.invalidData "have response too short", ?_⟩
      rw [readResponse, hframe, readFrame_append hsize (by omega), decodeStatus_found, hshort,
        upToMax_one (by omega), if_pos (decide_eq_true hmax)]
      rfl

/-- The blob protocol, with five bytes before the payload. -/
theorem BinaryProtocolCodec.readsNarrowed {data : Bytes} :
    ReadsNarrowed 5 readResponse (writeResponse false (.have_ data)) .have_ data := by
  have hmax : maxMessageSize = 67108864 := rfl
  have hlt : asU32 data.length < 4294967296 := asU32_lt _
  set narrowed : ℕ := asU32 data.length with hnarrowed
  by_cases hfits : 5 + narrowed < 4294967296
  · have hwritten : writeResponse false (.have_ data) =
        some ((writeU32Le (5 + narrowed) ++ ([1] ++ writeU32Le narrowed)) ++ data) := by
      simp only [writeResponse, BlobResponse.have_, ← hnarrowed, addU32_of_lt hfits,
        List.append_assoc]
      rfl
    refine .of_fits hwritten fun payload rest hlen => ?_
    rw [← hnarrowed] at hlen ⊢
    rw [← hlen, List.append_assoc (writeU32Le _), List.append_assoc [1]]
    exact ⟨_, readResponse_have (by rwa [hlen]) rest⟩
  · -- the sum wraps to less than the bytes before the payload
    have hwritten : writeResponse false (.have_ data) =
        some (writeU32Le (5 + narrowed - 4294967296) ++ ([1] ++ (writeU32Le narrowed ++ data))) := by
      simp only [writeResponse, BlobResponse.have_, ← hnarrowed,
        addU32_of_le (Nat.not_lt.mp hfits)]
      rfl
    refine .of_refused hwritten (by omega) fun rest => ?_
    rw [List.append_assoc, List.singleton_append]
    refine readResponse_short (by omega) ?_ rest
    rw [List.length_append, length_writeU32Le]
    exact Nat.le_add_right _ _

theorem BlobResponse.have_injective : Function.Injective BlobResponse.have_ :=
  fun _ _ h => Option.some.inj (BlobResponse.mk.inj h).2

theorem RangeResponse.have_injective : Function.Injective RangeResponse.have_ :=
  fun _ _ h => Option.some.inj (RangeResponse.mk.inj h)

theorem SliverResponse.have_injective : Function.Injective SliverResponse.have_ :=
  fun _ _ h => Option.some.inj (SliverResponse.mk.inj h)

/-- **Which payloads are not silently truncated**: those that 32 bits count, and those whose
narrowed length is above what the reader accepts. -/
theorem no_silent_truncation_iff (data : Bytes) :
    (NotTruncated BinaryProtocolCodec.readResponse
        (BinaryProtocolCodec.writeResponse false (.have_ data)) (.have_ data) ↔
      data.length < 4294967296 ∨ maxMessageSize < 5 + data.length % 4294967296) ∧
    (NotTruncated RangeProtocolCodec.readResponse
        (RangeProtocolCodec.writeResponse false (.have_ data)) (.have_ data) ↔
      data.length < 4294967296 ∨ maxMessageSize < 1 + data.length % 4294967296) ∧
    (NotTruncated SliverProtocolCodec.readResponse
        (SliverProtocolCodec.writeResponse false (.have_ data)) (.have_ data) ↔
      data.length < 4294967296 ∨ maxMessageSize < 1 + data.length % 4294967296) :=
  ⟨BinaryProtocolCodec.readsNarrowed.notTruncated_iff BlobResponse.have_injective,
    readsNarrowed_rest.notTruncated_iff RangeResponse.have_injective,
    readsNarrowed_rest.notTruncated_iff SliverResponse.have_injective⟩

/-- A payload of 4 GiB is not read as what it is, nor refused, in any of the three protocols. -/
theorem four_gib_truncated :
    ¬NotTruncated BinaryProtocolCodec.readResponse
      (BinaryProtocolCodec.writeResponse false (.have_ (List.replicate 4294967296 0)))
      (.have_ (List.replicate 4294967296 0)) ∧
    ¬NotTruncated RangeProtocolCodec.readResponse
      (RangeProtocolCodec.writeResponse false (.have_ (List.replicate 4294967296 0)))
      (.have_ (List.replicate 4294967296 0)) ∧
    ¬NotTruncated SliverProtocolCodec.readResponse
      (SliverProtocolCodec.writeResponse false (.have_ (List.replicate 4294967296 0)))
      (.have_ (List.replicate 4294967296 0)) := by
  have hlength : (List.replicate 4294967296 (0 : UInt8)).length = 4294967296 :=
    List.length_replicate
  have hcut : ∀ before : ℕ, before ≤ 5 →
      ¬((List.replicate 4294967296 (0 : UInt8)).length < 4294967296 ∨
        maxMessageSize < before + (List.replicate 4294967296 (0 : UInt8)).length % 4294967296) := by
    intro before hbefore
    rw [hlength, maxMessageSize]
    omega
  refine ⟨fun h => hcut 5 le_rfl ?_, fun h => hcut 1 (by omega) ?_, fun h => hcut 1 (by omega) ?_⟩
  · exact (BinaryProtocolCodec.readsNarrowed.notTruncated_iff BlobResponse.have_injective).mp h
  · exact (readsNarrowed_rest.notTruncated_iff RangeResponse.have_injective).mp h
  · exact (readsNarrowed_rest.notTruncated_iff SliverResponse.have_injective).mp h

end ZingCdn
