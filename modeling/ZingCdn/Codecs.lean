import ZingCdn.Library.Outcome
import ZingCdn.Protocol

/-!
# The Codecs of the Four Protocols

The blob, range, sliver and address protocols frame every message alike: its length as a
little-endian `u32`, then that many bytes. Each codec has its own bounds on the length, its own
messages and its own decoder of the bytes; `readFrame` is what the eight readers share.

A have response narrows the length of its payload with `as u32` and adds the bytes before the
payload to it. Where that sum overflows the writer panics if overflow checks are compiled in,
and a writer that returns nothing panicked.

The peer ids and addresses of the address protocol, and their byte formats, are those of the
networking library, and are taken as parameters.

## Main results

* `readFrame_append`: a written frame is taken off the stream, and decoded if its length is
  accepted.
* `readFrame_eq_ok_iff`: what a reader that succeeds has consumed.
-/

namespace ZingCdn

/-- `MAX_MESSAGE_SIZE`: 64 MiB. -/
def maxMessageSize : ℕ := 64 * 1024 * 1024

/-- `u16::MAX`. -/
def u16Max : ℕ := 65535

/-- `n as u32`. -/
def asU32 (n : ℕ) : ℕ := n % 4294967296

/-- `a + b` on `u32`: an overflow panics when overflow checks are compiled in, and wraps when
not. -/
def addU32 (overflowChecks : Bool) (a b : ℕ) : Option ℕ :=
  if a + b < 4294967296 then some (a + b)
  else if overflowChecks then none
  else some (a + b - 4294967296)

/-- `a + b` on `usize`, where an overflow is a panic. -/
def addUsize (a b : ℕ) : Except CodecError ℕ :=
  if a + b ≤ u64Max then .ok (a + b) else .error .panic

/-- `buf[index]`. -/
def byteAt (buf : Bytes) (index : ℕ) : Except CodecError UInt8 :=
  match buf[index]? with
  | some byte => .ok byte
  | none => .error .panic

/-- `&buf[start..]`. -/
def bytesFrom (buf : Bytes) (start : ℕ) : Except CodecError Bytes :=
  byteRange buf start buf.length

/-- `u16::from_le_bytes` of two bytes of a buffer. -/
def u16FromLe (buf : Bytes) (start : ℕ) : Except CodecError ℕ := do
  let bytes ← byteRange buf start (start + 2)
  pure (LittleEndian.combine bytes)

/-- `u32::from_le_bytes` of four bytes of a buffer. -/
def u32FromLe (buf : Bytes) (start : ℕ) : Except CodecError ℕ := do
  let bytes ← byteRange buf start (start + 4)
  pure (LittleEndian.combine bytes)

/-- What the readers share: the length of the frame, which is `InvalidData` if the protocol
does not accept it, and the frame, which is decoded from its length and its bytes. -/
def readFrame {α : Type} (accepts : ℕ → Bool) (invalidLength : ℕ → String)
    (decode : ℕ → Bytes → Except CodecError α) : Decoder α := fun io => do
  let (len, io) ← readU32Le io
  if ¬accepts len then throw (.invalidData (invalidLength len))
  let (buf, io) ← readExact len io
  let message ← decode len buf
  pure (message, io)

/-- What the response decoders share: the first byte is 0 for not found and 1 for found. -/
def decodeStatus {α : Type} (unknown : String) (notFound : α)
    (found : ℕ → Bytes → Except CodecError α) (len : ℕ) (buf : Bytes) :
    Except CodecError α := do
  let status ← byteAt buf 0
  if status = 0 then pure notFound
  else if status = 1 then found len buf
  else throw (.invalidData (unknown ++ toString status.toNat))

/-- The lengths `(low..=MAX_MESSAGE_SIZE)`. -/
def upToMax (low len : ℕ) : Bool := low ≤ len ∧ len ≤ maxMessageSize

/-! ### The blob protocol -/

namespace BinaryProtocolCodec

/-- The body of `BinaryProtocolCodec::read_request`. -/
def decodeRequest (_len : ℕ) (buf : Bytes) : Except CodecError BlobRequest := do
  let blobId ← copy32 (← byteRange buf 0 32)
  let paymentTxDigest ← copy32 (← byteRange buf 33 65)
  let version ← byteAt buf 32
  pure ⟨blobId, version.toNat, paymentTxDigest⟩

/-- `BinaryProtocolCodec::read_request`. -/
def readRequest : Decoder BlobRequest :=
  readFrame (upToMax 65) ("invalid request length: " ++ toString ·) decodeRequest

/-- A have response repeats the length of its payload behind the status. -/
def decodeHave (len : ℕ) (buf : Bytes) : Except CodecError BlobResponse := do
  if len < 5 then throw (.invalidData "have response too short")
  let dataLen ← u32FromLe buf 1
  if len ≠ (← addUsize 5 dataLen) then throw (.invalidData "have response length mismatch")
  let data ← bytesFrom buf 5
  pure (.have_ data)

/-- `BinaryProtocolCodec::read_response`. -/
def readResponse : Decoder BlobResponse :=
  readFrame (upToMax 1) ("invalid response length: " ++ toString ·)
    (decodeStatus "unknown status: " .notFound decodeHave)

/-- `BinaryProtocolCodec::write_request`. -/
def writeRequest (req : BlobRequest) : Bytes :=
  writeU32Le 65 ++ (req.blobId.toList ++ ([UInt8.ofNat req.version]
    ++ req.paymentTxDigest.toList))

/-- `BinaryProtocolCodec::write_response`. -/
def writeResponse (overflowChecks : Bool) (res : BlobResponse) : Option Bytes :=
  match res.data with
  | some data =>
      let dataLen := asU32 data.length
      (addU32 overflowChecks 5 dataLen).map fun len =>
        writeU32Le len ++ ([1] ++ (writeU32Le dataLen ++ data))
  | none => some (writeU32Le 1 ++ [0])

end BinaryProtocolCodec

/-- The body of a range or sliver response that has data: what is behind the status. -/
def decodeRest {α : Type} (have_ : Bytes → α) (_len : ℕ) (buf : Bytes) :
    Except CodecError α := do
  let data ← bytesFrom buf 1
  pure (have_ data)

/-- What `write_response` of the range and sliver protocols share. -/
def writeStatus (overflowChecks : Bool) (data : Option Bytes) : Option Bytes :=
  match data with
  | some data =>
      (addU32 overflowChecks 1 (asU32 data.length)).map fun totalLen =>
        writeU32Le totalLen ++ ([1] ++ data)
  | none => some (writeU32Le 1 ++ [0])

/-! ### The range protocol -/

namespace RangeProtocolCodec

/-- The body of `RangeProtocolCodec::read_request`. -/
def decodeRequest (_len : ℕ) (buf : Bytes) : Except CodecError RangeRequest := do
  let blobId ← copy32 (← byteRange buf 0 32)
  let offset ← u64FromLe buf 32
  let length ← u64FromLe buf 40
  let paymentTxDigest ← copy32 (← byteRange buf 48 80)
  pure ⟨blobId, offset, length, paymentTxDigest⟩

/-- `RangeProtocolCodec::read_response`. -/
def readResponse : Decoder RangeResponse :=
  readFrame (upToMax 1) ("invalid response length: " ++ toString ·)
    (decodeStatus "unknown status: " .notFound (decodeRest .have_))

/-- `RangeProtocolCodec::write_response`. -/
def writeResponse (overflowChecks : Bool) (res : RangeResponse) : Option Bytes :=
  writeStatus overflowChecks res.data

end RangeProtocolCodec

/-! ### The sliver protocol -/

namespace SliverProtocolCodec

/-- The body of `SliverProtocolCodec::read_request`. -/
def decodeRequest (_len : ℕ) (buf : Bytes) : Except CodecError SliverRequest := do
  let blobId ← copy32 (← byteRange buf 0 32)
  let sliverPairIndex ← u16FromLe buf 32
  let axis ← byteAt buf 34
  pure ⟨blobId, UInt16.ofNat sliverPairIndex, axis⟩

/-- `SliverProtocolCodec::read_request`. -/
def readRequest : Decoder SliverRequest :=
  readFrame (· = 35)
    (fun len => "invalid sliver request length: " ++ toString len ++ " (expected 35)")
    decodeRequest

/-- `SliverProtocolCodec::read_response`. -/
def readResponse : Decoder SliverResponse :=
  readFrame (upToMax 1) ("invalid response length: " ++ toString ·)
    (decodeStatus "unknown status: " .notFound (decodeRest .have_))

/-- `SliverProtocolCodec::write_request`. -/
def writeRequest (req : SliverRequest) : Bytes :=
  writeU32Le 35 ++ (req.blobId.toList ++ (LittleEndian.split 2 req.sliverPairIndex.toNat
    ++ [req.axis]))

/-- `SliverProtocolCodec::write_response`. -/
def writeResponse (overflowChecks : Bool) (res : SliverResponse) : Option Bytes :=
  writeStatus overflowChecks res.data

end SliverProtocolCodec

/-! ### The address protocol -/

/-- The byte formats of `libp2p::PeerId` and `libp2p::Multiaddr`, errors by their texts. -/
structure AddrFormats (PeerId : Type) where
  /-- `PeerId::to_bytes` -/
  peerIdToBytes : PeerId → Bytes
  /-- `PeerId::from_bytes` -/
  peerIdFromBytes : Bytes → Except String PeerId
  /-- `Multiaddr::to_vec` -/
  toVec : Multiaddr → Bytes
  /-- `Multiaddr::try_from` -/
  tryFrom : Bytes → Except String Multiaddr

namespace AddrProtocolCodec

variable {PeerId : Type} (formats : AddrFormats PeerId)

/-- The body of `AddrProtocolCodec::read_request`. -/
def decodeRequest (_len : ℕ) (buf : Bytes) : Except CodecError (AddrRequest PeerId) :=
  match formats.peerIdFromBytes buf with
  | .ok peerId => .ok ⟨peerId⟩
  | .error e => .error (.invalidData ("invalid PeerId bytes: " ++ e))

/-- `AddrProtocolCodec::read_request`. -/
def readRequest : Decoder (AddrRequest PeerId) :=
  readFrame (fun len => 1 ≤ len ∧ len ≤ 256) ("invalid addr request length: " ++ toString ·)
    (decodeRequest formats)

/-- The first half of a turn of the loop: the length of an address, and the cursor behind it. -/
def readAddrLen (len : ℕ) (buf : Bytes) (pos : ℕ) : Except CodecError (ℕ × ℕ) := do
  if len < (← addUsize pos 2) then throw (.invalidData "addr response truncated")
  let addrLen ← u16FromLe buf pos
  let pos ← addUsize pos 2
  pure (addrLen, pos)

/-- One turn of the loop over the addresses, on the cursor and the addresses read so far. An
address that does not parse is left out. -/
def addrTurn (len : ℕ) (buf : Bytes) : ℕ × List Multiaddr → Except CodecError (ℕ × List Multiaddr)
  | (pos, addresses) => do
    let (addrLen, pos) ← readAddrLen len buf pos
    let stop ← addUsize pos addrLen
    if len < stop then throw (.invalidData "addr response truncated")
    let addresses := match formats.tryFrom (← byteRange buf pos stop) with
      | .ok addr => addresses ++ [addr]
      | .error _ => addresses
    pure (stop, addresses)

/-- The body of a found response. -/
def decodeFound (len : ℕ) (buf : Bytes) : Except CodecError AddrResponse := do
  if len < 3 then throw (.invalidData "addr response too short")
  let count ← u16FromLe buf 1
  let (_, addresses) ← Outcome.turns (addrTurn formats len buf) count (3, [])
  pure (.found addresses)

/-- `AddrProtocolCodec::read_response`. -/
def readResponse : Decoder AddrResponse :=
  readFrame (upToMax 1) ("invalid addr response length: " ++ toString ·)
    (decodeStatus "unknown addr status: " .notFound (decodeFound formats))

/-- `AddrProtocolCodec::write_request`. -/
def writeRequest (req : AddrRequest PeerId) : Bytes :=
  let peerBytes := formats.peerIdToBytes req.peerId
  writeU32Le (asU32 peerBytes.length) ++ peerBytes

/-- What the payload of a found response has for an address: its bytes behind their number, no
more of them than a `u16` counts. -/
def addrEntry (addr : Multiaddr) : Bytes :=
  let bytes := formats.toVec addr
  let len := min bytes.length u16Max
  LittleEndian.split 2 len ++ bytes.take len

/-- The payload of a response. -/
def payload (res : AddrResponse) : Bytes :=
  if res.addresses.isEmpty then [0]
  else
    let count := min res.addresses.length u16Max
    [1] ++ (LittleEndian.split 2 count ++ res.addresses.flatMap (addrEntry formats))

/-- `AddrProtocolCodec::write_response`. -/
def writeResponse (res : AddrResponse) : Bytes :=
  let payload := payload formats res
  writeU32Le (asU32 payload.length) ++ payload

end AddrProtocolCodec

/-! ### Frames -/

section Frames

variable {α : Type} {accepts : ℕ → Bool} {invalidLength : ℕ → String}
  {decode : ℕ → Bytes → Except CodecError α}

/-- **A written frame is taken off the stream**, and decoded if its length is accepted. -/
theorem readFrame_append {frame : Bytes} {len : ℕ} (hlen : frame.length = len)
    (hfits : len < 4294967296) (rest : Bytes) :
    readFrame accepts invalidLength decode (writeU32Le len ++ (frame ++ rest)) =
      if accepts len then (decode len frame).map (·, rest)
      else .error (.invalidData (invalidLength len)) := by
  subst hlen
  rw [readFrame, readU32Le_append hfits, bind_ok]
  by_cases haccepts : accepts frame.length = true
  · simp only [haccepts, not_true_eq_false, if_false, if_true, readExact_append, bind_ok]
    cases decode frame.length frame <;> rfl
  · simp only [haccepts, throw_eq_error, bind_error]
    rfl

theorem readExact_eq_ok_iff {length : ℕ} {io buf rest : Bytes} :
    readExact length io = .ok (buf, rest) ↔
      length ≤ io.length ∧ buf = io.take length ∧ rest = io.drop length := by
  rw [readExact]
  split
  · rename_i hle
    rw [Except.ok.injEq, Prod.mk.injEq]
    constructor
    · rintro ⟨hbuf, hrest⟩
      exact ⟨hle, hbuf.symm, hrest.symm⟩
    · rintro ⟨-, hbuf, hrest⟩
      exact ⟨hbuf.symm, hrest.symm⟩
  · rename_i hgt
    constructor
    · intro h
      cases h
    · rintro ⟨hle, -⟩
      exact absurd hle hgt

/-- The length that the first four bytes of a stream announce. -/
def announced (io : Bytes) : ℕ := LittleEndian.combine (io.take 4)

/-- **What a reader that succeeds has consumed**: four bytes and as many as they announce. -/
theorem readFrame_eq_ok_iff {io rest : Bytes} {message : α} :
    readFrame accepts invalidLength decode io = .ok (message, rest) ↔
      4 + announced io ≤ io.length ∧ accepts (announced io) = true ∧
      decode (announced io) ((io.drop 4).take (announced io)) = .ok message ∧
      rest = io.drop (4 + announced io) := by
  simp only [readFrame, readU32Le, bind_eq_ok_iff, Prod.exists, readExact_eq_ok_iff, pure_eq_ok,
    Except.ok.injEq, Prod.mk.injEq]
  constructor
  · rintro ⟨_, _, ⟨_, _, ⟨hheader, rfl, rfl⟩, rfl, rfl⟩, hread⟩
    split at hread
    · simp at hread
    · rename_i haccepts
      simp only [bind_eq_ok_iff, Prod.exists, readExact_eq_ok_iff, Except.ok.injEq,
        Prod.mk.injEq] at hread
      obtain ⟨_, _, ⟨hframe, rfl, rfl⟩, _, hdecode, rfl, rfl⟩ := hread
      rw [List.length_drop] at hframe
      have haccepts : accepts (announced io) = true := not_not.mp haccepts
      refine ⟨?_, haccepts, hdecode, ?_⟩
      · have hlong : LittleEndian.combine (io.take 4) ≤ io.length - 4 := hframe
        rw [announced]
        omega
      · rw [List.drop_drop, announced]
  · rintro ⟨hlength, haccepts, hdecode, rfl⟩
    have hheader : 4 ≤ io.length := by omega
    refine ⟨_, _, ⟨_, _, ⟨hheader, rfl, rfl⟩, rfl, rfl⟩, ?_⟩
    have hframe : announced io ≤ (io.drop 4).length := by
      rw [List.length_drop]
      omega
    rw [← announced, if_neg (not_not.mpr haccepts)]
    simp only [bind_eq_ok_iff, Prod.exists, readExact_eq_ok_iff]
    exact ⟨_, _, ⟨hframe, rfl, rfl⟩, _, hdecode, by rw [List.drop_drop]⟩

end Frames

end ZingCdn
