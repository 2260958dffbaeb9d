import ZingCdn.Codecs

/-!
# Reading Back What Was Written

The blob, range and sliver codecs against their own writers. A request is read back whatever it
asks for. A response is read back if its payload fits the limit on messages, and refused as
invalid data above it, as long as the writer's length does not overflow. Either way what comes
behind the frame is left alone.

## Main results

* `codecs_round_trip`: the round trips of the three protocols, and the refusal of what is too
  long.
-/

namespace ZingCdn

/-! ### The fields of a buffer -/

/-- The byte behind a first part. -/
theorem byteAt_append (before after : Bytes) (byte : UInt8) {index : ℕ}
    (hindex : index = before.length) : byteAt (before ++ (byte :: after)) index = .ok byte := by
  subst hindex
  rw [byteAt, List.getElem?_append_right (le_refl _), Nat.sub_self, List.getElem?_cons_zero]

/-- What is behind a first part. -/
theorem bytesFrom_append (before after : Bytes) {start : ℕ} (hstart : start = before.length) :
    bytesFrom (before ++ after) start = .ok after := by
  have hrange := byteRange_append before after [] hstart rfl
  rwa [List.append_nil, ← List.length_append] at hrange

/-- A number of 16 bits is read back from where it was written. -/
theorem u16FromLe_append (before after : Bytes) {val start : ℕ} (hval : val < 65536)
    (hstart : start = before.length) :
    u16FromLe (before ++ (LittleEndian.split 2 val ++ after)) start = .ok val :=
  combine_byteRange_append before after hval hstart

/-- So is one of 32 bits. -/
theorem u32FromLe_append (before after : Bytes) {val start : ℕ} (hval : val < 4294967296)
    (hstart : start = before.length) :
    u32FromLe (before ++ (writeU32Le val ++ after)) start = .ok val :=
  combine_byteRange_append before after hval hstart

/-- It takes four bytes. -/
theorem length_writeU32Le (val : ℕ) : (writeU32Le val).length = 4 :=
  LittleEndian.length_split 4 val

/-- A sum of sizes that does not wrap around. -/
theorem addUsize_of_le {a b : ℕ} (h : a + b ≤ u64Max) : addUsize a b = .ok (a + b) := if_pos h

/-- A sum below `2^32` is exact in both builds. -/
theorem addU32_of_lt {overflowChecks : Bool} {a b : ℕ} (h : a + b < 4294967296) :
    addU32 overflowChecks a b = some (a + b) := if_pos h

/-- The first byte of a frame decides what it is. -/
theorem decodeStatus_found {α : Type} {unknown : String} {notFound : α}
    {found : ℕ → Bytes → Except CodecError α} {len : ℕ} (rest : Bytes) :
    decodeStatus unknown notFound found len (1 :: rest) = found len (1 :: rest) := by
  have hstatus : byteAt (1 :: rest) 0 = .ok 1 := byteAt_append [] rest 1 rfl
  rw [decodeStatus, hstatus, bind_ok]
  rfl

/-- The status byte 0 says not found, whatever follows. -/
theorem decodeStatus_notFound {α : Type} {unknown : String} {notFound : α}
    {found : ℕ → Bytes → Except CodecError α} {len : ℕ} (rest : Bytes) :
    decodeStatus unknown notFound found len (0 :: rest) = .ok notFound := by
  have hstatus : byteAt (0 :: rest) 0 = .ok 0 := byteAt_append [] rest 0 rfl
  rw [decodeStatus, hstatus, bind_ok]
  rfl

/-! ### Requests -/

namespace BinaryProtocolCodec

/-- **A blob request survives the wire.** -/
theorem readRequest_writeRequest {req : BlobRequest} (hversion : req.version < 256)
    (rest : Bytes) : readRequest (writeRequest req ++ rest) = .ok (req, rest) := by
  have hid : req.blobId.toList.length = 32 := req.blobId.toList_length
  have hdigest : req.paymentTxDigest.toList.length = 32 := req.paymentTxDigest.toList_length
  set version := UInt8.ofNat req.version with hbyte
  set frame : Bytes := req.blobId.toList ++ ([version] ++ req.paymentTxDigest.toList) with hframe
  have hsize : frame.length = 65 := by
    rw [hframe, List.length_append, List.length_append, hid, hdigest]
    rfl
  have hblobId : byteRange frame 0 32 = .ok req.blobId.toList :=
    byteRange_append [] _ _ rfl (by rw [List.length_nil, Nat.zero_add, hid])
  have hpaid : byteRange frame 33 65 = .ok req.paymentTxDigest.toList := by
    have hbefore : (req.blobId.toList ++ [version]).length = 33 := by
      rw [List.length_append, hid]
      rfl
    have hlast := byteRange_append _ req.paymentTxDigest.toList [] hbefore.symm
      (by rw [hbefore, hdigest] : 65 = _ + req.paymentTxDigest.toList.length)
    rwa [List.append_nil, List.append_assoc] at hlast
  have hat : byteAt frame 32 = .ok version := byteAt_append _ _ version hid.symm
  have hback : version.toNat = req.version := UInt8.toNat_ofNat_of_lt hversion
  have hdecode : decodeRequest 65 frame = .ok req := by
    rw [decodeRequest, hblobId, bind_ok, copy32_toList, bind_ok, hpaid, bind_ok, copy32_toList,
      bind_ok, hat, bind_ok, hback, pure_eq_ok]
  rw [readRequest, writeRequest, List.append_assoc, readFrame_append hsize (by omega), hdecode]
  rfl

end BinaryProtocolCodec

namespace SliverProtocolCodec

/-- **A sliver request survives the wire.** -/
theorem readRequest_writeRequest (req : SliverRequest) (rest : Bytes) :
    readRequest (writeRequest req ++ rest) = .ok (req, rest) := by
  have hid : req.blobId.toList.length = 32 := req.blobId.toList_length
  set index : Bytes := LittleEndian.split 2 req.sliverPairIndex.toNat with hindex
  have htwo : index.length = 2 := LittleEndian.length_split 2 _
  set frame : Bytes := req.blobId.toList ++ (index ++ [req.axis]) with hframe
  have hsize : frame.length = 35 := by
    rw [hframe, List.length_append, List.length_append, hid, htwo]
    rfl
  have hblobId : byteRange frame 0 32 = .ok req.blobId.toList :=
    byteRange_append [] _ _ rfl (by rw [List.length_nil, Nat.zero_add, hid])
  have hpair : u16FromLe frame 32 = .ok req.sliverPairIndex.toNat :=
    u16FromLe_append _ _ req.sliverPairIndex.toNat_lt hid.symm
  have hat : byteAt frame 34 = .ok req.axis := by
    rw [hframe, ← List.append_assoc]
    exact byteAt_append _ [] req.axis (by rw [List.length_append, hid, htwo])
  have hdecode : decodeRequest 35 frame = .ok req := by
    rw [decodeRequest, hblobId, bind_ok, copy32_toList, bind_ok, hpair, bind_ok, hat, bind_ok,
      UInt16.ofNat_toNat, pure_eq_ok]
  rw [readRequest, writeRequest, List.append_assoc, readFrame_append hsize (by omega), hdecode]
  rfl

end SliverProtocolCodec

/-! ### Responses -/

/-- A length that is not zero is accepted up to the maximum. -/
theorem upToMax_one {len : ℕ} (hpos : 1 ≤ len) :
    upToMax 1 len = decide (len ≤ maxMessageSize) := by
  rw [upToMax, decide_eq_decide]
  exact and_iff_right hpos

/-- Not found is a frame of one byte. -/
theorem readFrame_notFound {α : Type} {invalidLength : ℕ → String} {unknown : String}
    {notFound : α} {found : ℕ → Bytes → Except CodecError α} (rest : Bytes) :
    readFrame (upToMax 1) invalidLength (decodeStatus unknown notFound found)
      ((writeU32Le 1 ++ [0]) ++ rest) = .ok (notFound, rest) := by
  have hsize : ([0] : Bytes).length = 1 := rfl
  rw [List.append_assoc, readFrame_append hsize (by omega), upToMax_one le_rfl,
    decodeStatus_notFound]
  rfl

/-- **A frame with data** of the range and sliver protocols, whose length the header has right. -/
theorem readFrame_rest {α : Type} {invalidLength : ℕ → String} {unknown : String}
    {notFound : α} {have_ : Bytes → α} {data : Bytes} (hfits : 1 + data.length < 4294967296)
    (rest : Bytes) :
    readFrame (upToMax 1) invalidLength (decodeStatus unknown notFound (decodeRest have_))
        ((writeU32Le (1 + data.length) ++ ([1] ++ data)) ++ rest) =
      if 1 + data.length ≤ maxMessageSize then .ok (have_ data, rest)
      else .error (.invalidData (invalidLength (1 + data.length))) := by
  have hsize : ([1] ++ data).length = 1 + data.length := List.length_append
  have hdata : bytesFrom ([1] ++ data) 1 = .ok data := bytesFrom_append [1] data rfl
  have hdecode : decodeStatus unknown notFound (decodeRest have_) (1 + data.length) ([1] ++ data)
      = .ok (have_ data) := by
    rw [List.singleton_append, decodeStatus_found, ← List.singleton_append, decodeRest, hdata,
      bind_ok, pure_eq_ok]
  rw [List.append_assoc, readFrame_append hsize hfits, upToMax_one (Nat.le_add_right _ _), hdecode]
  simp only [decide_eq_true_eq]
  rfl

/-- **A frame with data** of the blob protocol, whose two lengths the writer has right. -/
theorem BinaryProtocolCodec.readResponse_have {data : Bytes}
    (hfits : 5 + data.length < 4294967296) (rest : Bytes) :
    readResponse
        ((writeU32Le (5 + data.length) ++ ([1] ++ (writeU32Le data.length ++ data))) ++ rest) =
      if 5 + data.length ≤ maxMessageSize then .ok (.have_ data, rest)
      else .error (.invalidData ("invalid response length: " ++ toString (5 + data.length))) := by
  set frame : Bytes := [1] ++ (writeU32Le data.length ++ data) with hframe
  have hsize : frame.length = 5 + data.length := by
    rw [hframe, List.length_append, List.length_append, length_writeU32Le, ← Nat.add_assoc]
    rfl
  have hlen : u32FromLe frame 1 = .ok data.length :=
    u32FromLe_append [1] data (by omega) rfl
  have hdata : bytesFrom frame 5 = .ok data := by
    rw [hframe, ← List.append_assoc]
    exact bytesFrom_append _ data (by rw [List.length_append, length_writeU32Le]; rfl)
  have hsum : addUsize 5 data.length = .ok (5 + data.length) :=
    addUsize_of_le (by rw [u64Max]; omega)
  have hhave : decodeHave (5 + data.length) frame = .ok (.have_ data) := by
    have hlong : ¬5 + data.length < 5 := by omega
    simp only [decodeHave, hlong, if_false, hlen, bind_ok, hsum, ne_eq, not_true_eq_false, hdata,
      pure_eq_ok]
  have hdecode : decodeStatus "unknown status: " .notFound decodeHave (5 + data.length) frame
      = .ok (.have_ data) := by
    rw [hframe, List.singleton_append, decodeStatus_found, ← List.singleton_append, ← hframe,
      hhave]
  rw [readResponse, List.append_assoc, readFrame_append hsize hfits,
    upToMax_one (by omega), hdecode]
  simp only [decide_eq_true_eq]
  rfl

/-! ### What becomes of a response -/

/-- What was written is read back, and what comes behind it is left alone. -/
def Survives {α : Type} (read : Decoder α) (written : Option Bytes) (message : α) : Prop :=
  ∃ bytes, written = some bytes ∧ ∀ rest, read (bytes ++ rest) = .ok (message, rest)

/-- What was written is refused as invalid data, whatever comes behind it. -/
def Refused {α : Type} (read : Decoder α) (written : Option Bytes) : Prop :=
  ∃ bytes, written = some bytes ∧
    ∀ rest, ∃ message, read (bytes ++ rest) = .error (.invalidData message)

/-- A length below `2^32` is not cut. -/
theorem asU32_of_lt {n : ℕ} (h : n < 4294967296) : asU32 n = n := Nat.mod_eq_of_lt h

/-- A found payload is written behind its length and the status byte 1. -/
theorem writeStatus_some {overflowChecks : Bool} {data : Bytes}
    (hfits : 1 + data.length < 4294967296) :
    writeStatus overflowChecks (some data) =
      some (writeU32Le (1 + data.length) ++ ([1] ++ data)) := by
  rw [writeStatus, asU32_of_lt (by omega), addU32_of_lt hfits]
  rfl

/-- A blob is written behind two lengths and the status byte. -/
theorem BinaryProtocolCodec.writeResponse_have {overflowChecks : Bool} {data : Bytes}
    (hfits : 5 + data.length < 4294967296) :
    writeResponse overflowChecks (.have_ data) =
      some (writeU32Le (5 + data.length) ++ ([1] ++ (writeU32Le data.length ++ data))) := by
  simp only [writeResponse, BlobResponse.have_, asU32_of_lt (by omega : data.length < 4294967296),
    addU32_of_lt hfits]
  rfl

/-- A payload of the range or sliver protocol survives within the limit. -/
theorem survives_rest {α : Type} {invalidLength : ℕ → String} {unknown : String}
    {notFound : α} {have_ : Bytes → α} {overflowChecks : Bool} {data : Bytes}
    (hdata : data.length ≤ maxMessageSize - 1) :
    Survives (readFrame (upToMax 1) invalidLength
      (decodeStatus unknown notFound (decodeRest have_)))
      (writeStatus overflowChecks (some data)) (have_ data) := by
  rw [maxMessageSize] at hdata
  have hfits : 1 + data.length < 4294967296 := by omega
  refine ⟨_, writeStatus_some hfits, fun rest => ?_⟩
  rw [readFrame_rest hfits, if_pos (by rw [maxMessageSize]; omega)]

/-- A payload of the range or sliver protocol is refused above it. -/
theorem refused_rest {α : Type} {invalidLength : ℕ → String} {unknown : String}
    {notFound : α} {have_ : Bytes → α} {overflowChecks : Bool} {data : Bytes}
    (hlong : maxMessageSize - 1 < data.length) (hfits : 1 + data.length < 4294967296) :
    Refused (readFrame (upToMax 1) invalidLength
      (decodeStatus unknown notFound (decodeRest have_)))
      (writeStatus overflowChecks (some data)) := by
  refine ⟨_, writeStatus_some hfits, fun rest => ⟨invalidLength (1 + data.length), ?_⟩⟩
  rw [readFrame_rest hfits, if_neg (by omega)]

/-- **The codecs round-trip.** Every request is read back with what follows it left unread, and
so is every response whose payload fits a message, the empty one and not found included; a
larger payload that still fits the header is refused as invalid data. -/
theorem codecs_round_trip :
    ((∀ req : BlobRequest, req.version < 256 →
        Survives BinaryProtocolCodec.readRequest (some (BinaryProtocolCodec.writeRequest req))
          req) ∧
      (∀ req : RangeRequest, req.offset ≤ u64Max → req.length ≤ u64Max →
        Survives RangeProtocolCodec.readRequest (some (RangeProtocolCodec.writeRequest req))
          req) ∧
      ∀ req : SliverRequest,
        Survives SliverProtocolCodec.readRequest (some (SliverProtocolCodec.writeRequest req))
          req) ∧
    (∀ overflowChecks : Bool,
      (∀ data : Bytes, data.length ≤ maxMessageSize - 5 →
        Survives BinaryProtocolCodec.readResponse
          (BinaryProtocolCodec.writeResponse overflowChecks (.have_ data)) (.have_ data)) ∧
      (∀ data : Bytes, data.length ≤ maxMessageSize - 1 →
        Survives RangeProtocolCodec.readResponse
          (RangeProtocolCodec.writeResponse overflowChecks (.have_ data)) (.have_ data) ∧
        Survives SliverProtocolCodec.readResponse
          (SliverProtocolCodec.writeResponse overflowChecks (.have_ data)) (.have_ data)) ∧
      Survives BinaryProtocolCodec.readResponse
        (BinaryProtocolCodec.writeResponse overflowChecks .notFound) .notFound ∧
      Survives RangeProtocolCodec.readResponse
        (RangeProtocolCodec.writeResponse overflowChecks .notFound) .notFound ∧
      Survives SliverProtocolCodec.readResponse
        (SliverProtocolCodec.writeResponse overflowChecks .notFound) .notFound ∧
      (∀ data : Bytes, data.length < 4294967296 - 5 →
        (maxMessageSize - 5 < data.length →
          Refused BinaryProtocolCodec.readResponse
            (BinaryProtocolCodec.writeResponse overflowChecks (.have_ data))) ∧
        (maxMessageSize - 1 < data.length →
          Refused RangeProtocolCodec.readResponse
            (RangeProtocolCodec.writeResponse overflowChecks (.have_ data)) ∧
          Refused SliverProtocolCodec.readResponse
            (SliverProtocolCodec.writeResponse overflowChecks (.have_ data))))) ∧
    BlobResponse.have_ [] ≠ .notFound ∧ RangeResponse.have_ [] ≠ .notFound ∧
      SliverResponse.have_ [] ≠ .notFound := by
  refine ⟨⟨fun req hversion => ⟨_, rfl, fun rest => ?_⟩,
    fun req hoffset hlength => ⟨_, rfl, fun rest => ?_⟩, fun req => ⟨_, rfl, fun rest => ?_⟩⟩,
    fun overflowChecks => ⟨fun data hdata => ?_, fun data hdata => ⟨?_, ?_⟩, ?_, ?_, ?_,
      fun data hfits => ⟨fun hlong => ?_, fun hlong => ⟨?_, ?_⟩⟩⟩, ?_, ?_, ?_⟩
  · exact BinaryProtocolCodec.readRequest_writeRequest hversion rest
  · exact RangeProtocolCodec.readRequest_writeRequest (Nat.lt_succ_of_le hoffset)
      (Nat.lt_succ_of_le hlength) rest
  · exact SliverProtocolCodec.readRequest_writeRequest req rest
  · rw [maxMessageSize] at hdata
    have hfits : 5 + data.length < 4294967296 := by omega
    refine ⟨_, BinaryProtocolCodec.writeResponse_have hfits, fun rest => ?_⟩
    rw [BinaryProtocolCodec.readResponse_have hfits, if_pos (by rw [maxMessageSize]; omega)]
  · exact survives_rest hdata
  · exact survives_rest hdata
  · exact ⟨_, rfl, readFrame_notFound⟩
  · exact ⟨_, rfl, readFrame_notFound⟩
  · exact ⟨_, rfl, readFrame_notFound⟩
  · have hfits : 5 + data.length < 4294967296 := by omega
    refine ⟨_, BinaryProtocolCodec.writeResponse_have hfits,
      fun rest => ⟨"invalid response length: " ++ toString (5 + data.length), ?_⟩⟩
    rw [BinaryProtocolCodec.readResponse_have hfits, if_neg (by omega)]
  · exact refused_rest hlong (by omega)
  · exact refused_rest hlong (by omega)
  · rw [BlobResponse.have_, BlobResponse.notFound, ne_eq, BlobResponse.mk.injEq]
    exact fun h => Option.some_ne_none _ h.2
  · rw [RangeResponse.have_, RangeResponse.notFound, ne_eq, RangeResponse.mk.injEq]
    exact Option.some_ne_none _
  · rw [SliverResponse.have_, SliverResponse.notFound, ne_eq, SliverResponse.mk.injEq]
    exact Option.some_ne_none _

/-- A request of each kind that has bounds, an empty payload, and one a byte too long. -/
theorem codecs_round_trip_sample :
    Survives BinaryProtocolCodec.readRequest
      (some (BinaryProtocolCodec.writeRequest ⟨zeroBytes32, 3, zeroBytes32⟩))
      ⟨zeroBytes32, 3, zeroBytes32⟩ ∧
    Survives RangeProtocolCodec.readRequest
      (some (RangeProtocolCodec.writeRequest ⟨zeroBytes32, 262144, u64Max, zeroBytes32⟩))
      ⟨zeroBytes32, 262144, u64Max, zeroBytes32⟩ ∧
    Survives BinaryProtocolCodec.readResponse
      (BinaryProtocolCodec.writeResponse true (.have_ [])) (.have_ []) ∧
    Survives SliverProtocolCodec.readResponse
      (SliverProtocolCodec.writeResponse false (.have_ [7])) (.have_ [7]) ∧
    Refused BinaryProtocolCodec.readResponse
      (BinaryProtocolCodec.writeResponse true (.have_ (List.replicate 67108860 0))) := by
  obtain ⟨⟨hblob, hrange, -⟩, hresponses, -⟩ := codecs_round_trip
  obtain ⟨hhave, -, -, -, -, hlong⟩ := hresponses true
  refine ⟨hblob _ (by decide), hrange _ (by decide) le_rfl, hhave [] (Nat.zero_le _),
    ((hresponses false).2.1 [7] (by decide)).2, (hlong _ ?_).1 ?_⟩
  · rw [List.length_replicate]
    omega
  · rw [List.length_replicate]
    decide

end ZingCdn
