import ZingCdn.Types

/-!
# Serving Blobs to Peers

The messages of the request-response protocols, and the handlers of inbound blob and range
requests, over the local store as a function from keys to read results. Every tenth unpaid
request, counted over both kinds, is refused as a spot check; the handlers take the request
counter and return it updated. A handler that returns nothing panicked: the end of a requested
range is computed in `usize`, and the addition overflows on offsets and lengths near `u64::MAX`.

## Main results

* `handleInboundRangeRequest_eq`: a range request that is not refused is answered with the
  stored bytes of the range, or not found past the end.
-/

namespace ZingCdn

/-- A whole-blob request. -/
structure BlobRequest where
  blobId : Bytes32
  version : ℕ
  paymentTxDigest : Bytes32
deriving DecidableEq

/-- A range request. -/
structure RangeRequest where
  blobId : Bytes32
  offset : ℕ
  length : ℕ
  paymentTxDigest : Bytes32
deriving DecidableEq

/-- The answer to a whole-blob request. -/
structure BlobResponse where
  size : Option ℕ
  data : Option Bytes
deriving DecidableEq

/-- `BlobResponse::have`. -/
def BlobResponse.have_ (data : Bytes) : BlobResponse := ⟨some data.length, some data⟩

/-- `BlobResponse::not_found`. -/
def BlobResponse.notFound : BlobResponse := ⟨none, none⟩

/-- The answer to a range request. -/
structure RangeResponse where
  data : Option Bytes
deriving DecidableEq

/-- `RangeResponse::have`. -/
def RangeResponse.have_ (data : Bytes) : RangeResponse := ⟨some data⟩

/-- `RangeResponse::not_found`. -/
def RangeResponse.notFound : RangeResponse := ⟨none⟩

/-- A sliver request. -/
structure SliverRequest where
  blobId : Bytes32
  sliverPairIndex : UInt16
  axis : UInt8
deriving DecidableEq

/-- The answer to a sliver request. -/
structure SliverResponse where
  data : Option Bytes
deriving DecidableEq

/-- `SliverResponse::have`. -/
def SliverResponse.have_ (data : Bytes) : SliverResponse := ⟨some data⟩

/-- `SliverResponse::not_found`. -/
def SliverResponse.notFound : SliverResponse := ⟨none⟩

/-- A request for the addresses of a peer. -/
structure AddrRequest (PeerId : Type) where
  peerId : PeerId
deriving DecidableEq

/-- The answer to it. -/
structure AddrResponse where
  addresses : List Multiaddr
deriving DecidableEq

/-- `AddrResponse::found`. -/
def AddrResponse.found (addrs : List Multiaddr) : AddrResponse := ⟨addrs⟩

/-- `AddrResponse::not_found`. -/
def AddrResponse.notFound : AddrResponse := ⟨[]⟩

/-- Whether the request counter is at a spot check. -/
def isSpotCheck (requestCounter : ℕ) : Bool := requestCounter % 10 = 0

/-- `REQUEST_COUNTER.fetch_add(1)`. -/
def nextRequest (requestCounter : ℕ) : ℕ := (requestCounter + 1) % 18446744073709551616

/-- What a read of the local store gives. -/
abbrev StoreRead : Type := String → ZingResult (Option Bytes)

/-- `handle_inbound_request`. -/
def handleInboundRequest {PeerId : Type} (lib : Externals PeerId) (store : StoreRead)
    (requestCounter : ℕ) (request : BlobRequest) : BlobResponse × ℕ :=
  let blobIdStr := lib.blobIdToString ⟨request.blobId⟩
  let unpaid := request.paymentTxDigest = zeroBytes32
  if unpaid ∧ isSpotCheck requestCounter then (.notFound, nextRequest requestCounter)
  else
    let requestCounter := if unpaid then nextRequest requestCounter else requestCounter
    match store blobIdStr with
    | .ok (some data) => (.have_ data, requestCounter)
    | .ok none => (.notFound, requestCounter)
    | .error _ => (.notFound, requestCounter)

/-- The range of the stored bytes that is sent; `none` is the overflow panic. -/
def serveRange (data : Bytes) (offset length : ℕ) : Option RangeResponse :=
  let start := offset
  if u64Max < start + length then none
  else
    let stop := min (start + length) data.length
    if data.length ≤ start then some .notFound
    else some (.have_ ((data.take stop).drop start))

/-- `handle_inbound_range_request`. -/
def handleInboundRangeRequest {PeerId : Type} (lib : Externals PeerId) (store : StoreRead)
    (requestCounter : ℕ) (request : RangeRequest) : Option (RangeResponse × ℕ) :=
  let blobIdStr := lib.blobIdToString ⟨request.blobId⟩
  let unpaid := request.paymentTxDigest = zeroBytes32
  if unpaid ∧ isSpotCheck requestCounter then some (.notFound, nextRequest requestCounter)
  else
    let requestCounter := if unpaid then nextRequest requestCounter else requestCounter
    match store blobIdStr with
    | .ok (some data) =>
        (serveRange data request.offset request.length).map (·, requestCounter)
    | .ok none => some (.notFound, requestCounter)
    | .error _ => some (.notFound, requestCounter)

/-- `handle_inbound_sliver_request`. Whether the blob is cached is only logged: slivers are not
cached yet. -/
def handleInboundSliverRequest {PeerId : Type} (lib : Externals PeerId) (store : StoreRead)
    (request : SliverRequest) : SliverResponse :=
  let blobIdStr := lib.blobIdToString ⟨request.blobId⟩
  match store blobIdStr with
  | .ok (some _) => .notFound
  | .ok none => .notFound
  | .error _ => .notFound

/-! ### What an honest peer sends -/

/-- The bytes of a blob from an offset on, at most `length` of them. -/
def slice (blob : Bytes) (offset length : ℕ) : Bytes := (blob.drop offset).take length

/-- A range ends where the blob ends. -/
theorem slice_length (blob : Bytes) (offset length : ℕ) :
    (slice blob offset length).length = min length (blob.length - offset) := by
  simp [slice]

/-- A range is empty when it begins behind the blob. -/
theorem slice_eq_nil_iff {blob : Bytes} {offset length : ℕ} (hlen : 0 < length) :
    slice blob offset length = [] ↔ blob.length ≤ offset := by
  rw [← List.length_eq_zero_iff, slice_length]
  omega

/-- Appending the next range extends a prefix of the blob. -/
theorem take_append_slice (blob : Bytes) (offset length : ℕ) :
    blob.take offset ++ slice blob offset length = blob.take (offset + length) :=
  (List.take_add).symm

/-- The range served within the bounds of `usize`. -/
theorem serveRange_eq {data : Bytes} {offset length : ℕ} (hfit : offset + length ≤ u64Max) :
    serveRange data offset length =
      some ⟨if data.length ≤ offset then none else some (slice data offset length)⟩ := by
  have hslice : (data.take (min (offset + length) data.length)).drop offset
      = slice data offset length := by
    rw [slice, ← List.take_eq_take_min, List.drop_take, Nat.add_sub_cancel_left]
  rw [serveRange]
  rw [if_neg (by omega)]
  simp only [hslice]
  split <;> rfl

/-- An unrefused range request for a stored blob is answered with the range. -/
theorem handleInboundRangeRequest_eq {PeerId : Type} {lib : Externals PeerId}
    {store : StoreRead} {requestCounter : ℕ} {request : RangeRequest} {blob : Bytes}
    (hstore : store (lib.blobIdToString ⟨request.blobId⟩) = .ok (some blob))
    (hserved : request.paymentTxDigest ≠ zeroBytes32 ∨ isSpotCheck requestCounter = false)
    (hfit : request.offset + request.length ≤ u64Max) :
    ∃ next, handleInboundRangeRequest lib store requestCounter request =
      some (⟨if blob.length ≤ request.offset then none
        else some (slice blob request.offset request.length)⟩, next) := by
  refine ⟨if request.paymentTxDigest = zeroBytes32 then nextRequest requestCounter
    else requestCounter, ?_⟩
  rw [handleInboundRangeRequest]
  rw [if_neg (by rintro ⟨hzero, hspot⟩; rcases hserved with h | h <;> simp_all), hstore]
  simp only [serveRange_eq hfit, Option.map_some]

/-- Past the end of a stored blob there is no data, also when the end of the range
overflows. -/
theorem handleInboundRangeRequest_past_end {PeerId : Type} {lib : Externals PeerId}
    {store : StoreRead} {requestCounter : ℕ} {request : RangeRequest} {blob : Bytes}
    (hstore : store (lib.blobIdToString ⟨request.blobId⟩) = .ok (some blob))
    (hend : blob.length ≤ request.offset) :
    ((handleInboundRangeRequest lib store requestCounter request).bind fun r => r.1.data)
      = none := by
  have hserve : ((serveRange blob request.offset request.length).bind fun r => r.data) = none := by
    simp only [serveRange, if_pos hend]
    split <;> rfl
  simp only [handleInboundRangeRequest, hstore]
  split
  · rfl
  · simpa [Option.bind_map] using hserve

end ZingCdn
