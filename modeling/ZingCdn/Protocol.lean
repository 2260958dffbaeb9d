import ZingCdn.Handler

/-!
# The Wire Protocols

The codecs of the request-response protocols. A decoder takes a value off a stream of bytes
and leaves the rest; it fails when the stream ends too early or when the frame is not well
formed, and it would panic on an index out of bounds.

A range request is a frame of 80 bytes behind their number: the blob id, the offset and the
length as little-endian `u64`, and the payment digest.

## Main results

* `RangeProtocolCodec.readRequest_writeRequest`: what was written is read back, and what comes
  behind it is left alone.
* `RangeProtocolCodec.decodable_iff`: the requests the decoder can produce are those whose
  offset and length are `u64`.
-/

namespace ZingCdn

/-- How a decoder fails: with `io::ErrorKind::UnexpectedEof`, with
`io::ErrorKind::InvalidData`, or with a panic. -/
inductive CodecError
  | unexpectedEof
  | invalidData (message : String)
  | panic
deriving DecidableEq

/-- A decoder: the value at the front of a stream, and the rest. -/
abbrev Decoder (α : Type) : Type := Bytes → Except CodecError (α × Bytes)

/-- `AsyncReadExt::read_exact` into a buffer of some length. -/
def readExact (length : ℕ) : Decoder Bytes := fun io =>
  if length ≤ io.length then .ok (io.take length, io.drop length) else .error .unexpectedEof

/-- `&buf[start..stop]`. -/
def byteRange (buf : Bytes) (start stop : ℕ) : Except CodecError Bytes :=
  if start ≤ stop ∧ stop ≤ buf.length then .ok ((buf.take stop).drop start) else .error .panic

/-- `copy_from_slice` into an array of 32 bytes. -/
def copy32 (src : Bytes) : Except CodecError Bytes32 :=
  if h : src.length = 32 then .ok ⟨src, h⟩ else .error .panic

/-- `read_u32_le`. -/
def readU32Le : Decoder ℕ := fun io => do
  let (buf, io) ← readExact 4 io
  pure (LittleEndian.combine buf, io)

/-- `write_u32_le`. -/
def writeU32Le (val : ℕ) : Bytes := LittleEndian.split 4 val

/-- `u64::from_le_bytes` of eight bytes of a buffer. -/
def u64FromLe (buf : Bytes) (start : ℕ) : Except CodecError ℕ := do
  let bytes ← byteRange buf start (start + 8)
  pure (LittleEndian.combine bytes)

/-! ### Range requests -/

namespace RangeProtocolCodec

/-- `RangeProtocolCodec::read_request`. -/
def readRequest : Decoder RangeRequest := fun io => do
  let (len, io) ← readU32Le io
  if len ≠ 80 then
    throw (.invalidData
      ("invalid range request length: " ++ toString len ++ " (expected 80)"))
  let (buf, io) ← readExact 80 io
  let blobId ← copy32 (← byteRange buf 0 32)
  let offset ← u64FromLe buf 32
  let length ← u64FromLe buf 40
  let paymentTxDigest ← copy32 (← byteRange buf 48 80)
  pure (⟨blobId, offset, length, paymentTxDigest⟩, io)

/-- `RangeProtocolCodec::write_request`. -/
def writeRequest (req : RangeRequest) : Bytes :=
  writeU32Le 80 ++ (req.blobId.toList ++ leBytes64 req.offset ++ leBytes64 req.length
    ++ req.paymentTxDigest.toList)

end RangeProtocolCodec

/-! ### Reading what was written -/

/-- A known front of a stream is read off it. -/
theorem readExact_append (front rest : Bytes) :
    readExact front.length (front ++ rest) = .ok (front, rest) := by
  have hle : front.length ≤ (front ++ rest).length := by
    rw [List.length_append]
    exact Nat.le_add_right _ _
  rw [readExact, if_pos hle, List.take_left, List.drop_left]

/-- A number below `2 ^ 32` is read back. -/
theorem readU32Le_append {val : ℕ} (hval : val < 4294967296) (rest : Bytes) :
    readU32Le (writeU32Le val ++ rest) = .ok (val, rest) := by
  have hread := readExact_append (writeU32Le val) rest
  rw [writeU32Le, LittleEndian.length_split] at hread
  have hback : LittleEndian.combine (LittleEndian.split 4 val) = val :=
    LittleEndian.combine_split_of_lt hval
  rw [readU32Le, writeU32Le, hread, bind_ok]
  exact congrArg (fun n => Except.ok (n, rest)) hback

/-- The middle of a buffer. -/
theorem byteRange_append (before middle after : Bytes) {start stop : ℕ}
    (hstart : start = before.length) (hstop : stop = before.length + middle.length) :
    byteRange (before ++ (middle ++ after)) start stop = .ok middle := by
  subst hstart hstop
  have hbounds : before.length ≤ before.length + middle.length ∧
      before.length + middle.length ≤ (before ++ (middle ++ after)).length := by
    rw [List.length_append, List.length_append]
    omega
  rw [byteRange, if_pos hbounds, ← List.append_assoc, ← List.length_append, List.take_left,
    List.drop_left]

theorem copy32_toList (bytes : Bytes32) : copy32 bytes.toList = .ok bytes :=
  dif_pos bytes.toList_length

/-- A number that was written into a buffer is read back. -/
theorem combine_byteRange_append (before after : Bytes) {width val start : ℕ}
    (hval : val < 256 ^ width) (hstart : start = before.length) :
    (byteRange (before ++ (LittleEndian.split width val ++ after)) start (start + width) >>=
      fun bytes => pure (LittleEndian.combine bytes)) = .ok val := by
  have hstop : start + width = before.length + (LittleEndian.split width val).length := by
    rw [hstart, LittleEndian.length_split]
  rw [byteRange_append before _ after hstart hstop, bind_ok, pure_eq_ok,
    LittleEndian.combine_split_of_lt hval]

/-- A `u64` within a buffer is read back. -/
theorem u64FromLe_append (before after : Bytes) {val start : ℕ}
    (hval : val < 18446744073709551616) (hstart : start = before.length) :
    u64FromLe (before ++ (leBytes64 val ++ after)) start = .ok val := by
  rw [u64FromLe, leBytes64_eq]
  exact combine_byteRange_append before after hval hstart

/-- What a `u64` is read from is eight bytes. -/
theorem lt_of_u64FromLe {buf : Bytes} {start val : ℕ} (h : u64FromLe buf start = .ok val) :
    val < 18446744073709551616 := by
  obtain ⟨bytes, hbytes, hval⟩ := bind_eq_ok_iff.mp h
  obtain rfl := Except.ok.inj hval
  rw [byteRange] at hbytes
  split at hbytes
  · rename_i hbounds
    obtain rfl := Except.ok.inj hbytes
    have hlt := LittleEndian.combine_lt ((buf.take (start + 8)).drop start)
    have hlength : ((buf.take (start + 8)).drop start).length = 8 := by
      rw [List.length_drop, List.length_take]
      omega
    rwa [hlength] at hlt
  · simp at hbytes

namespace RangeProtocolCodec

/-- **A range request survives the wire**, and leaves what comes behind it. -/
theorem readRequest_writeRequest {req : RangeRequest} (hoffset : req.offset < 18446744073709551616)
    (hlength : req.length < 18446744073709551616) (rest : Bytes) :
    readRequest (writeRequest req ++ rest) = .ok (req, rest) := by
  have h64 : ∀ n, (leBytes64 n).length = 8 := fun n => by
    rw [leBytes64_eq, LittleEndian.length_split]
  have hid : req.blobId.toList.length = 32 := req.blobId.toList_length
  have hdigest : req.paymentTxDigest.toList.length = 32 := req.paymentTxDigest.toList_length
  set frame : Bytes := req.blobId.toList ++ leBytes64 req.offset ++ leBytes64 req.length
    ++ req.paymentTxDigest.toList with hframe
  have hsize : frame.length = 80 := by
    simp only [hframe, List.length_append, h64, hid, hdigest]
  have hread := readExact_append frame rest
  rw [hsize] at hread
  -- the four fields, each between what comes before and behind it
  have hblobId : byteRange frame 0 32 = .ok req.blobId.toList := by
    rw [hframe, List.append_assoc, List.append_assoc]
    exact byteRange_append [] _ _ rfl (by rw [List.length_nil, Nat.zero_add, hid])
  have hoff : u64FromLe frame 32 = .ok req.offset := by
    rw [hframe, List.append_assoc, List.append_assoc]
    exact u64FromLe_append _ _ hoffset hid.symm
  have hlen : u64FromLe frame 40 = .ok req.length := by
    rw [hframe, List.append_assoc]
    exact u64FromLe_append _ _ hlength (by rw [List.length_append, hid, h64])
  have hpaid : byteRange frame 48 80 = .ok req.paymentTxDigest.toList := by
    have hbefore : (req.blobId.toList ++ leBytes64 req.offset ++ leBytes64 req.length).length
        = 48 := by
      simp only [List.length_append, hid, h64]
    have hlast := byteRange_append _ req.paymentTxDigest.toList [] hbefore.symm
      (by rw [hbefore, hdigest] : 80 = _ + req.paymentTxDigest.toList.length)
    rwa [List.append_nil] at hlast
  have hheader := readU32Le_append (by decide : 80 < 4294967296) (frame ++ rest)
  rw [readRequest, writeRequest, List.append_assoc, ← hframe, hheader]
  simp only [bind_ok, pure_eq_ok, ne_eq, not_true_eq_false, if_false, hread, hblobId, hoff, hlen,
    hpaid, copy32_toList]

/-- **What the decoder can produce**: the requests whose offset and length are `u64`. -/
theorem decodable_iff {req : RangeRequest} :
    (∃ frame rest, readRequest frame = .ok (req, rest)) ↔
      req.offset < 18446744073709551616 ∧ req.length < 18446744073709551616 := by
  constructor
  · rintro ⟨frame, rest, hread⟩
    simp only [readRequest, bind_eq_ok_iff] at hread
    obtain ⟨header, -, hread⟩ := hread
    split at hread
    · simp at hread
    · simp only [bind_eq_ok_iff, pure_eq_ok, Except.ok.injEq, Prod.mk.injEq] at hread
      obtain ⟨buf, -, _, -, blobId, -, offset, hoffset, length, hlength, _, -, digest, -, rfl, -⟩ :=
        hread
      exact ⟨lt_of_u64FromLe hoffset, lt_of_u64FromLe hlength⟩
  · rintro ⟨hoffset, hlength⟩
    have hread := readRequest_writeRequest hoffset hlength []
    exact ⟨_, _, hread⟩

end RangeProtocolCodec

end ZingCdn
