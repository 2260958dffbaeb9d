import ZingCdn.Protocol

/-!
# Serving Ranges in Every Build

The handler of range requests adds the offset and the length of the request in `usize`,
before it compares the offset with the size of the blob. Both come from a remote peer, and the
decoder lets every pair of `u64` through. With overflow checks compiled in the addition
panics; without them the end of the range wraps around to before its start, and the slice
panics instead, unless the offset is past the end of the blob. The handler is awaited by the
task of the swarm, which stops with it.

`handleInboundRangeRequest` of `ZingCdn.Handler` is the handler with overflow checks
(`handleInboundRangeRequestIn_true`).

## Main results

* `serveRangeIn_eq`: what is served, and when there is a panic.
* `range_serving_iff`: the ranges that are served exactly, and the requests that stop the task.
* `not_range_serving`: a request that stops it in every build.
-/

namespace ZingCdn

variable {PeerId : Type}

/-! ### The handler -/

/-- The range of the stored bytes that is sent; `none` is a panic, of the addition or of the
slice. -/
def serveRangeIn (overflowChecks : Bool) (data : Bytes) (offset length : ℕ) :
    Option RangeResponse := do
  let start := offset
  let stop := min (← addU64 overflowChecks start length) data.length
  if data.length ≤ start then pure .notFound
  else
    let chunk ← (byteRange data start stop).toOption
    pure (.have_ chunk)

/-- `handle_inbound_range_request`, compiled with overflow checks or without. -/
def handleInboundRangeRequestIn (overflowChecks : Bool) (lib : Externals PeerId)
    (store : StoreRead) (requestCounter : ℕ) (request : RangeRequest) :
    Option (RangeResponse × ℕ) :=
  let blobIdStr := lib.blobIdToString ⟨request.blobId⟩
  let unpaid := request.paymentTxDigest = zeroBytes32
  if unpaid ∧ isSpotCheck requestCounter then some (.notFound, nextRequest requestCounter)
  else
    let requestCounter := if unpaid then nextRequest requestCounter else requestCounter
    match store blobIdStr with
    | .ok (some data) =>
        (serveRangeIn overflowChecks data request.offset request.length).map (·, requestCounter)
    | .ok none => some (.notFound, requestCounter)
    | .error _ => some (.notFound, requestCounter)

/-! ### What is served -/

/-- The exact answer: the bytes of the range that the blob has, or not found past its end. -/
def rangeAnswer (blob : Bytes) (offset length : ℕ) : RangeResponse :=
  if offset < blob.length then
    .have_ ((blob.take (min (offset + length) blob.length)).drop offset)
  else .notFound

/-- The end of a range is a `usize`; or it wraps around where nobody looks at it. -/
def EndFits (overflowChecks : Bool) (size offset length : ℕ) : Prop :=
  offset + length < 18446744073709551616 ∨ overflowChecks = false ∧ size ≤ offset

instance (overflowChecks : Bool) (size offset length : ℕ) :
    Decidable (EndFits overflowChecks size offset length) :=
  inferInstanceAs (Decidable (_ ∨ _))

/-- A slice within its bounds. -/
theorem byteRange_of_le {buf : Bytes} {start stop : ℕ} (h : start ≤ stop ∧ stop ≤ buf.length) :
    byteRange buf start stop = .ok ((buf.take stop).drop start) := if_pos h

/-- **What is served**, and when there is a panic. -/
theorem serveRangeIn_eq (overflowChecks : Bool) (data : Bytes) {offset length : ℕ}
    (hlength : length < 18446744073709551616) :
    serveRangeIn overflowChecks data offset length =
      if EndFits overflowChecks data.length offset length then
        some (rangeAnswer data offset length)
      else none := by
  by_cases hfit : offset + length < 18446744073709551616
  · -- the end is exact
    rw [if_pos (.inl hfit), serveRangeIn, addU64_of_lt hfit]
    rcases Nat.lt_or_ge offset data.length with hin | hpast
    · have hbounds : offset ≤ min (offset + length) data.length ∧
          min (offset + length) data.length ≤ data.length := by omega
      simp only [Option.bind_eq_bind, Option.bind_some, if_neg (Nat.not_le.mpr hin),
        byteRange_of_le hbounds, rangeAnswer, if_pos hin]
      rfl
    · simp only [Option.bind_eq_bind, Option.bind_some, if_pos hpast, rangeAnswer,
        if_neg (Nat.not_lt.mpr hpast)]
      rfl
  · cases overflowChecks with
    | true =>
        have hadd : addU64 true offset length = none := by rw [addU64, if_neg hfit, if_pos rfl]
        have hnot : ¬ EndFits true data.length offset length := by
          rintro (h | ⟨h, -⟩)
          · exact hfit h
          · simp at h
        rw [if_neg hnot, serveRangeIn, hadd]
        rfl
    | false =>
        -- the end wraps around to before the start
        have hadd : addU64 false offset length
            = some (offset + length - 18446744073709551616) := by
          rw [addU64, if_neg hfit, if_neg Bool.false_ne_true]
        rw [serveRangeIn, hadd]
        rcases Nat.lt_or_ge offset data.length with hin | hpast
        · have hnot : ¬ EndFits false data.length offset length := by
            rintro (h | ⟨-, h⟩) <;> omega
          have hslice : byteRange data offset
              (min (offset + length - 18446744073709551616) data.length) = .error .panic :=
            if_neg (by omega)
          simp only [Option.bind_eq_bind, Option.bind_some, if_neg (Nat.not_le.mpr hin), hslice,
            if_neg hnot]
          rfl
        · rw [if_pos (.inr ⟨rfl, hpast⟩), rangeAnswer, if_neg (Nat.not_lt.mpr hpast)]
          simp only [Option.bind_eq_bind, Option.bind_some, if_pos hpast]
          rfl

/-- With overflow checks, it is the range of `ZingCdn.Handler`. -/
theorem serveRangeIn_true (data : Bytes) (offset length : ℕ) :
    serveRangeIn true data offset length = serveRange data offset length := by
  rcases Nat.lt_or_ge (offset + length) 18446744073709551616 with hfit | hover
  · rw [serveRangeIn_eq true data (by omega), if_pos (.inl hfit), serveRange,
      if_neg (by rw [u64Max]; omega), rangeAnswer]
    rcases Nat.lt_or_ge offset data.length with hin | hpast
    · rw [if_pos hin, if_neg (Nat.not_le.mpr hin)]
    · rw [if_neg (Nat.not_lt.mpr hpast), if_pos hpast]
  · have hadd : addU64 true offset length = none := by
      rw [addU64, if_neg (Nat.not_lt.mpr hover), if_pos rfl]
    rw [serveRangeIn, hadd, serveRange, if_pos (by rw [u64Max]; omega)]
    rfl

theorem handleInboundRangeRequestIn_true (lib : Externals PeerId) (store : StoreRead)
    (requestCounter : ℕ) (request : RangeRequest) :
    handleInboundRangeRequestIn true lib store requestCounter request
      = handleInboundRangeRequest lib store requestCounter request := by
  have hserve : serveRangeIn true = serveRange :=
    funext fun data => funext fun offset => funext fun length => serveRangeIn_true data offset length
  rw [handleInboundRangeRequestIn, hserve]
  rfl

/-! ### The task -/

/-- A range request as a turn of the loop finds it: the store, the request counter, and the
request. -/
structure RangeTurn where
  store : StoreRead
  requestCounter : ℕ
  request : RangeRequest

namespace RangeTurn

variable (overflowChecks : Bool) (lib : Externals PeerId) (turn : RangeTurn)

/-- What the handler does in this turn. -/
def handle : Option (RangeResponse × ℕ) :=
  handleInboundRangeRequestIn overflowChecks lib turn.store turn.requestCounter turn.request

/-- The blob is stored, and the request is not refused by the spot check. -/
def Serves (blob : Bytes) : Prop :=
  turn.store (lib.blobIdToString ⟨turn.request.blobId⟩) = .ok (some blob) ∧
    (turn.request.paymentTxDigest ≠ zeroBytes32 ∨ isSpotCheck turn.requestCounter = false)

/-- The decoder can produce the request. -/
def Decodable : Prop :=
  ∃ frame rest, RangeProtocolCodec.readRequest frame = .ok (turn.request, rest)

/-- The task over some range requests: a panic of the handler is a panic of the task. -/
def serveAll : List RangeTurn → Option (List RangeResponse)
  | [] => some []
  | turn :: rest => do
      let (response, _) ← turn.handle overflowChecks lib
      let responses ← serveAll rest
      pure (response :: responses)

variable {overflowChecks lib turn}

/-- A served request is answered exactly, or there is a panic. -/
theorem handle_of_serves {blob : Bytes} (hserves : turn.Serves lib blob)
    (hdecodable : turn.Decodable) :
    (turn.handle overflowChecks lib).map Prod.fst =
      if EndFits overflowChecks blob.length turn.request.offset turn.request.length then
        some (rangeAnswer blob turn.request.offset turn.request.length)
      else none := by
  obtain ⟨hstore, hpaid⟩ := hserves
  have hlength := (RangeProtocolCodec.decodable_iff.mp hdecodable).2
  have hnot : ¬ (turn.request.paymentTxDigest = zeroBytes32
      ∧ isSpotCheck turn.requestCounter = true) := by
    rintro ⟨hzero, hspot⟩
    rcases hpaid with hdigest | hcounter
    · exact hdigest hzero
    · rw [hspot] at hcounter
      exact Bool.noConfusion hcounter
  have hfst : ∀ (counter : ℕ) (r : Option RangeResponse), (r.map (·, counter)).map Prod.fst = r :=
    fun counter r => by cases r <;> rfl
  rw [handle, handleInboundRangeRequestIn, if_neg hnot]
  simp only [hstore]
  exact (hfst _ _).trans (serveRangeIn_eq overflowChecks blob hlength)

/-- Any other request is answered not found. -/
theorem handle_of_not_serves (hnone : ∀ blob, ¬ turn.Serves lib blob) :
    (turn.handle overflowChecks lib).map Prod.fst = some .notFound := by
  rw [handle, handleInboundRangeRequestIn]
  split
  · rfl
  · rename_i hnot
    have hpaid : turn.request.paymentTxDigest ≠ zeroBytes32
        ∨ isSpotCheck turn.requestCounter = false := by
      by_cases hzero : turn.request.paymentTxDigest = zeroBytes32
      · exact .inr (Bool.eq_false_iff.mpr fun hspot => hnot ⟨hzero, hspot⟩)
      · exact .inl hzero
    cases hstore : turn.store (lib.blobIdToString ⟨turn.request.blobId⟩) with
    | error e => rfl
    | ok data =>
        cases data with
        | none => rfl
        | some blob => exact absurd ⟨hstore, hpaid⟩ (hnone blob)

/-- The task gets past a request exactly when the handler returns. -/
theorem isSome_serveAll_cons {rest : List RangeTurn} :
    (serveAll overflowChecks lib (turn :: rest)).isSome ↔
      (turn.handle overflowChecks lib).isSome ∧ (serveAll overflowChecks lib rest).isSome := by
  rw [serveAll]
  cases turn.handle overflowChecks lib with
  | none => simp
  | some answer => cases serveAll overflowChecks lib rest <;> simp

/-- **What stops the task**: a served request whose end does not fit. -/
theorem isSome_serveAll_iff {turns : List RangeTurn} (hdecodable : ∀ turn ∈ turns, turn.Decodable) :
    (serveAll overflowChecks lib turns).isSome ↔ ∀ turn ∈ turns, ∀ blob, turn.Serves lib blob →
      EndFits overflowChecks blob.length turn.request.offset turn.request.length := by
  induction turns with
  | nil => exact ⟨fun _ turn hturn => absurd hturn List.not_mem_nil, fun _ => rfl⟩
  | cons turn rest ih =>
      rw [isSome_serveAll_cons, List.forall_mem_cons,
        ih fun turn hturn => hdecodable turn (List.mem_cons_of_mem _ hturn)]
      refine and_congr_left fun _ => ?_
      rw [← Option.isSome_map (f := Prod.fst)]
      constructor
      · intro hsome blob hserves
        rw [handle_of_serves hserves (hdecodable turn List.mem_cons_self)] at hsome
        by_contra hnot
        simp [if_neg hnot] at hsome
      · intro hfits
        by_cases hserves : ∃ blob, turn.Serves lib blob
        · obtain ⟨blob, hblob⟩ := hserves
          rw [handle_of_serves hblob (hdecodable turn List.mem_cons_self),
            if_pos (hfits blob hblob)]
          rfl
        · rw [handle_of_not_serves fun blob hblob => hserves ⟨blob, hblob⟩]
          rfl

end RangeTurn

/-- **Range serving**, for every build. A request the decoder produced, for a stored blob and
not refused by the spot check, is answered exactly when the end of its range fits, and else the
handler panics; in all builds it is answered exactly when the offset and the length sum up to a
`u64`. The task that awaits the handler gets through the range requests of a run exactly when
every one of them that is served has an end that fits. -/
theorem range_serving_iff (lib : Externals PeerId) (overflowChecks : Bool) :
    (∀ turn : RangeTurn, turn.Decodable → ∀ blob, turn.Serves lib blob →
      ((turn.handle overflowChecks lib).map Prod.fst
          = some (rangeAnswer blob turn.request.offset turn.request.length) ↔
        EndFits overflowChecks blob.length turn.request.offset turn.request.length) ∧
      (turn.handle overflowChecks lib = none ↔
        ¬ EndFits overflowChecks blob.length turn.request.offset turn.request.length) ∧
      ((∀ checks, (turn.handle checks lib).map Prod.fst
          = some (rangeAnswer blob turn.request.offset turn.request.length)) ↔
        turn.request.offset + turn.request.length < 18446744073709551616)) ∧
    ∀ turns : List RangeTurn, (∀ turn ∈ turns, turn.Decodable) →
      ((RangeTurn.serveAll overflowChecks lib turns).isSome ↔
        ∀ turn ∈ turns, ∀ blob, turn.Serves lib blob →
          EndFits overflowChecks blob.length turn.request.offset turn.request.length) := by
  refine ⟨fun turn hdecodable blob hserves => ?_, fun _ => RangeTurn.isSome_serveAll_iff⟩
  have hanswer : ∀ checks, (turn.handle checks lib).map Prod.fst
      = some (rangeAnswer blob turn.request.offset turn.request.length) ↔
        EndFits checks blob.length turn.request.offset turn.request.length := by
    intro checks
    rw [RangeTurn.handle_of_serves hserves hdecodable]
    split <;> simp [*]
  refine ⟨hanswer overflowChecks, ?_, ?_⟩
  · rw [← Option.map_eq_none_iff (f := Prod.fst), RangeTurn.handle_of_serves hserves hdecodable]
    split <;> simp [*]
  · simp only [hanswer]
    constructor
    · intro hfits
      exact (hfits true).resolve_right fun h => Bool.noConfusion h.1
    · exact fun hfit checks => .inl hfit

/-- A request for two bytes of a blob of two bytes, from the second on. -/
def lastByte : RangeRequest :=
  ⟨List.Vector.replicate 32 1, 1, 2, List.Vector.replicate 32 1⟩

/-- It is answered with the last byte. -/
theorem range_serving_lastByte :
    (RangeTurn.handle false sampleExternals ⟨fun _ => .ok (some [7, 8]), 0, lastByte⟩).map Prod.fst
      = some (.have_ [8]) :=
  ((range_serving_iff sampleExternals false).1 ⟨fun _ => .ok (some [7, 8]), 0, lastByte⟩
    (RangeProtocolCodec.decodable_iff.mpr (by decide)) [7, 8] ⟨rfl, .inl (by decide)⟩).1.mpr
    (.inl (by decide))

/-- A request for nearly all of `usize`, from the second byte of a blob on. -/
def endlessRange : RangeRequest :=
  ⟨List.Vector.replicate 32 1, 1, 18446744073709551615, List.Vector.replicate 32 1⟩

/-- The decoder lets it through. -/
theorem decodable_endlessRange :
    ∃ frame rest, RangeProtocolCodec.readRequest frame = .ok (endlessRange, rest) :=
  RangeProtocolCodec.decodable_iff.mpr (by decide)

/-- **One request stops the task**, with overflow checks and without. -/
theorem not_range_serving :
    ¬ ∃ overflowChecks, ∀ turn : RangeTurn, turn.Decodable →
      ∀ blob, turn.Serves sampleExternals blob →
        (turn.handle overflowChecks sampleExternals).map Prod.fst
          = some (rangeAnswer blob turn.request.offset turn.request.length) := by
  rintro ⟨overflowChecks, hserving⟩
  have hanswer := hserving ⟨fun _ => .ok (some [7, 8]), 0, endlessRange⟩ decodable_endlessRange
    [7, 8] ⟨rfl, .inl (by decide)⟩
  cases overflowChecks <;> exact absurd hanswer (by decide)

end ZingCdn
