import ZingCdn.AddrRoundTrip

/-!
# Frames From a Hostile Peer

What the eight readers do with any bytes whatever. None of them panics: every index and every
slice of a frame is guarded by a check on its length or by the length that the reader accepts,
and the sums behind the slices fit a `usize`. A reader that succeeds has consumed the header and
what the header announces, no more and no less.

The operations on buffers are each given the bound they need; the decoders are then put together
from them, and the readers from the decoders.

## Main results

* `readers_total`: the eight readers on every stream.
* `cursor_bounded`: the cursor of the address decoder, in every turn of its loop.
-/

open Outcome

namespace ZingCdn

/-! ### Operations on buffers -/

/-- A range inside the buffer has its length. -/
theorem byteRange_ensures {buf : Bytes} {start stop : ℕ} (hstart : start ≤ stop)
    (hstop : stop ≤ buf.length) :
    Ensures CodecError.panic (fun bytes : Bytes => bytes.length = stop - start)
      (byteRange buf start stop) := by
  rw [byteRange, if_pos ⟨hstart, hstop⟩, Ensures, List.length_drop, List.length_take,
    min_eq_left hstop]

/-- A start inside the buffer is fine. -/
theorem bytesFrom_ensures {buf : Bytes} {start : ℕ} (hstart : start ≤ buf.length) :
    Ensures CodecError.panic (fun _ : Bytes => True) (bytesFrom buf start) :=
  (byteRange_ensures hstart le_rfl).mono fun _ _ => trivial

/-- So are 32 bytes for an array of 32. -/
theorem copy32_ensures {src : Bytes} (hsrc : src.length = 32) :
    Ensures CodecError.panic (fun _ : Bytes32 => True) (copy32 src) := by
  rw [copy32, dif_pos hsrc]
  exact trivial

/-- So is an index inside the buffer. -/
theorem byteAt_ensures {buf : Bytes} {index : ℕ} (hindex : index < buf.length) :
    Ensures CodecError.panic (fun _ : UInt8 => True) (byteAt buf index) := by
  rw [byteAt, List.getElem?_eq_getElem hindex]
  exact trivial

/-- So is a sum that does not wrap around. -/
theorem addUsize_ensures {a b : ℕ} (h : a + b ≤ u64Max) :
    Ensures CodecError.panic (fun sum : ℕ => sum = a + b) (addUsize a b) := by
  rw [addUsize, if_pos h]
  exact rfl

/-- A number of some bytes of a buffer. -/
theorem combine_byteRange_ensures {buf : Bytes} {start width : ℕ}
    (hstop : start + width ≤ buf.length) :
    Ensures CodecError.panic (fun n : ℕ => n < 256 ^ width)
      (byteRange buf start (start + width) >>= fun bytes => pure (LittleEndian.combine bytes)) := by
  refine (byteRange_ensures (Nat.le_add_right _ _) hstop).bind fun bytes hbytes => ?_
  have hlt := LittleEndian.combine_lt bytes
  rwa [hbytes, Nat.add_sub_cancel_left] at hlt

/-- An error is no panic. -/
theorem invalidData_ne_panic (message : String) : CodecError.invalidData message ≠ .panic :=
  fun h => by cases h

/-! ### Decoders of requests -/

/-- A blob request of at least 65 bytes is decoded or refused. -/
theorem BinaryProtocolCodec.decodeRequest_ensures {len : ℕ} {buf : Bytes}
    (hbuf : 65 ≤ buf.length) :
    Ensures CodecError.panic (fun _ => True) (decodeRequest len buf) := by
  have hid : 0 + 32 ≤ buf.length := by omega
  have hdigest : 33 + 32 ≤ buf.length := hbuf
  have hversion : 32 < buf.length := by omega
  refine (byteRange_ensures (Nat.zero_le _) hid).bind fun _ hlen => ?_
  refine (copy32_ensures hlen).bind fun _ _ => ?_
  refine (byteRange_ensures (by omega) hdigest).bind fun _ hlen => ?_
  refine (copy32_ensures hlen).bind fun _ _ => ?_
  exact (byteAt_ensures hversion).bind fun _ _ => trivial

/-- A range request of 80 bytes is. -/
theorem RangeProtocolCodec.decodeRequest_ensures {len : ℕ} {buf : Bytes}
    (hbuf : buf.length = 80) :
    Ensures CodecError.panic (fun _ => True) (decodeRequest len buf) := by
  have hid : 0 + 32 ≤ buf.length := by omega
  have hoffset : 32 + 8 ≤ buf.length := by omega
  have hlength : 40 + 8 ≤ buf.length := by omega
  have hdigest : 48 + 32 ≤ buf.length := by omega
  refine (byteRange_ensures (Nat.zero_le _) hid).bind fun _ hlen => ?_
  refine (copy32_ensures hlen).bind fun _ _ => ?_
  refine (combine_byteRange_ensures hoffset).bind fun _ _ => ?_
  refine (combine_byteRange_ensures hlength).bind fun _ _ => ?_
  refine (byteRange_ensures (by omega) hdigest).bind fun _ hlen => ?_
  exact (copy32_ensures hlen).bind fun _ _ => trivial

/-- A sliver request of 35 bytes is. -/
theorem SliverProtocolCodec.decodeRequest_ensures {len : ℕ} {buf : Bytes}
    (hbuf : buf.length = 35) :
    Ensures CodecError.panic (fun _ => True) (decodeRequest len buf) := by
  have hid : 0 + 32 ≤ buf.length := by omega
  have hindex : 32 + 2 ≤ buf.length := by omega
  have haxis : 34 < buf.length := by omega
  refine (byteRange_ensures (Nat.zero_le _) hid).bind fun _ hlen => ?_
  refine (copy32_ensures hlen).bind fun _ _ => ?_
  refine (combine_byteRange_ensures hindex).bind fun _ _ => ?_
  exact (byteAt_ensures haxis).bind fun _ _ => trivial

/-- An address request is, at any length. -/
theorem AddrProtocolCodec.decodeRequest_ensures {PeerId : Type} (formats : AddrFormats PeerId)
    {len : ℕ} {buf : Bytes} :
    Ensures CodecError.panic (fun _ => True) (decodeRequest formats len buf) := by
  rw [decodeRequest]
  split
  · exact trivial
  · exact invalidData_ne_panic _

/-! ### Decoders of responses -/

/-- The status is the first byte of a frame that has one. -/
theorem decodeStatus_ensures {α : Type} {unknown : String} {notFound : α}
    {found : ℕ → Bytes → Except CodecError α} {post : α → Prop} {len : ℕ} {buf : Bytes}
    (hbuf : 1 ≤ buf.length) (hnotFound : post notFound)
    (hfound : Ensures CodecError.panic post (found len buf)) :
    Ensures CodecError.panic post (decodeStatus unknown notFound found len buf) := by
  refine (byteAt_ensures hbuf).bind fun status _ => ?_
  by_cases hzero : status = 0
  · rwa [if_pos hzero]
  · rw [if_neg hzero]
    by_cases hone : status = 1
    · rwa [if_pos hone]
    · rw [if_neg hone]
      exact invalidData_ne_panic _

/-- So is the rest behind a status byte. -/
theorem decodeRest_ensures {α : Type} {have_ : Bytes → α} {len : ℕ} {buf : Bytes}
    (hbuf : 1 ≤ buf.length) :
    Ensures CodecError.panic (fun _ => True) (decodeRest have_ len buf) :=
  (bytesFrom_ensures hbuf).bind fun _ _ => trivial

/-- The repeated length is behind the check that it is there, and the sum is small. -/
theorem BinaryProtocolCodec.decodeHave_ensures {buf : Bytes} :
    Ensures CodecError.panic (fun _ => True) (decodeHave buf.length buf) := by
  refine Ensures.guard (invalidData_ne_panic _) fun hlong => ?_
  have hfive : 5 ≤ buf.length := Nat.not_lt.mp hlong
  refine (combine_byteRange_ensures hfive).bind fun dataLen hdata => ?_
  have hsum : 5 + dataLen ≤ u64Max := by
    rw [u64Max]
    omega
  refine (addUsize_ensures hsum).bind fun _ _ => ?_
  refine Ensures.guard (invalidData_ne_panic _) fun _ => ?_
  exact (bytesFrom_ensures hfive).bind fun _ _ => trivial

/-! ### The loop over the addresses -/

namespace AddrProtocolCodec

variable {PeerId : Type} (formats : AddrFormats PeerId) {buf : Bytes}

/-- The first half of a turn leaves the cursor within the frame. -/
theorem readAddrLen_ensures {pos : ℕ} (hpos : pos ≤ buf.length)
    (hbuf : buf.length ≤ maxMessageSize) :
    Ensures CodecError.panic (fun r : ℕ × ℕ => r.1 < 65536 ∧ r.2 ≤ buf.length)
      (readAddrLen buf.length buf pos) := by
  rw [maxMessageSize] at hbuf
  have hsum : pos + 2 ≤ u64Max := by
    rw [u64Max]
    omega
  refine (addUsize_ensures hsum).bind fun stop hstop => ?_
  refine Ensures.guard (invalidData_ne_panic _) fun hlong => ?_
  have hlen : pos + 2 ≤ buf.length := hstop ▸ Nat.not_lt.mp hlong
  refine (combine_byteRange_ensures hlen).bind fun addrLen haddrLen => ?_
  refine (addUsize_ensures hsum).bind fun pos' hpos' => ?_
  exact ⟨haddrLen, hpos'.trans_le hlen⟩

/-- So does the whole turn, which reads one address at most. -/
theorem addrTurn_ensures (hbuf : buf.length ≤ maxMessageSize) (turnsMade : ℕ)
    (state : ℕ × List Multiaddr)
    (hstate : state.1 ≤ buf.length ∧ state.2.length ≤ turnsMade) :
    Ensures CodecError.panic
      (fun s : ℕ × List Multiaddr => s.1 ≤ buf.length ∧ s.2.length ≤ turnsMade + 1)
      (addrTurn formats buf.length buf state) := by
  obtain ⟨pos, addresses⟩ := state
  obtain ⟨hpos, hcount⟩ := hstate
  refine (readAddrLen_ensures hpos hbuf).bind fun r hr => ?_
  obtain ⟨addrLen, cursor⟩ := r
  obtain ⟨haddrLen, hcursor⟩ := hr
  have hsum : cursor + addrLen ≤ u64Max := by
    rw [maxMessageSize] at hbuf
    rw [u64Max]
    dsimp only at haddrLen hcursor
    omega
  refine (addUsize_ensures hsum).bind fun stop hstop => ?_
  refine Ensures.guard (invalidData_ne_panic _) fun hlong => ?_
  have hwithin : stop ≤ buf.length := Nat.not_lt.mp hlong
  refine (byteRange_ensures (hstop ▸ Nat.le_add_right _ _) hwithin).bind fun bytes _ => ?_
  refine ⟨hwithin, ?_⟩
  cases formats.tryFrom bytes with
  | ok addr =>
      show (addresses ++ [addr]).length ≤ turnsMade + 1
      rw [List.length_append]
      exact Nat.succ_le_succ hcount
  | error e => exact hcount.trans (Nat.le_succ _)

/-- **The cursor stays within the frame** and the addresses within the turns, however many turns
are made. -/
theorem turns_ensures (hbuf : buf.length ≤ maxMessageSize) (hstart : 3 ≤ buf.length) (n : ℕ) :
    Ensures CodecError.panic
      (fun s : ℕ × List Multiaddr => s.1 ≤ buf.length ∧ s.2.length ≤ n)
      (turns (addrTurn formats buf.length buf) n (3, [])) := by
  have hloop := Ensures.turns
    (fun k (s : ℕ × List Multiaddr) => s.1 ≤ buf.length ∧ s.2.length ≤ k)
    (addrTurn_ensures formats hbuf) n (k := 0) (s := (3, [])) ⟨hstart, le_rfl⟩
  rwa [Nat.zero_add] at hloop

/-- A found response has no more addresses than it counts. -/
theorem decodeFound_ensures (hbuf : buf.length ≤ maxMessageSize) :
    Ensures CodecError.panic
      (fun res : AddrResponse => 3 ≤ buf.length ∧
        res.addresses.length ≤ LittleEndian.combine ((buf.take 3).drop 1))
      (decodeFound formats buf.length buf) := by
  refine Ensures.guard (invalidData_ne_panic _) fun hlong => ?_
  have hthree : 3 ≤ buf.length := Nat.not_lt.mp hlong
  have hcount : u16FromLe buf 1 = .ok (LittleEndian.combine ((buf.take 3).drop 1)) := by
    rw [u16FromLe, byteRange, if_pos ⟨by omega, hthree⟩, bind_ok, pure_eq_ok]
  rw [hcount, bind_ok]
  exact (turns_ensures formats hbuf hthree _).bind fun s hs => ⟨hthree, hs.2⟩

end AddrProtocolCodec

/-! ### Readers -/

/-- Reading gives the length that was asked for, or fails. -/
theorem readExact_ensures {length : ℕ} {io : Bytes} :
    Ensures CodecError.panic (fun r : Bytes × Bytes => r.1.length = length)
      (readExact length io) := by
  rw [readExact]
  split
  · rename_i hle
    exact List.length_take_of_le hle
  · exact fun h => by cases h

/-- A reader does not panic if its decoder does not, on the frames that it accepts. -/
theorem readFrame_ensures {α : Type} {accepts : ℕ → Bool} {invalidLength : ℕ → String}
    {decode : ℕ → Bytes → Except CodecError α}
    (hdecode : ∀ buf : Bytes, accepts buf.length = true →
      Ensures CodecError.panic (fun _ => True) (decode buf.length buf)) (io : Bytes) :
    Ensures CodecError.panic (fun _ => True) (readFrame accepts invalidLength decode io) := by
  have hheader : Ensures CodecError.panic (fun _ => True) (readU32Le io) :=
    readExact_ensures.bind fun _ _ => trivial
  refine hheader.bind fun header _ => ?_
  refine Ensures.guard (invalidData_ne_panic _) fun haccepts => ?_
  refine readExact_ensures.bind fun frame hframe => ?_
  have hbuf := hdecode frame.1 (by rw [hframe]; exact not_not.mp haccepts)
  rw [hframe] at hbuf
  exact hbuf.bind fun _ _ => trivial

/-- On every stream the reader returns a message or an error that is not a panic, and for a
message it has consumed the header and as many bytes as it announces. -/
def Total {α : Type} (read : Decoder α) : Prop :=
  ∀ io, read io ≠ .error .panic ∧ ∀ message rest, read io = .ok (message, rest) →
    4 + announced io ≤ io.length ∧ rest = io.drop (4 + announced io)

/-- **A reader is total** when its decoder does not panic on what the reader accepts. -/
theorem readFrame_total {α : Type} {accepts : ℕ → Bool} {invalidLength : ℕ → String}
    {decode : ℕ → Bytes → Except CodecError α}
    (hdecode : ∀ buf : Bytes, accepts buf.length = true →
      Ensures CodecError.panic (fun _ => True) (decode buf.length buf)) :
    Total (readFrame accepts invalidLength decode) := by
  refine fun io => ⟨(readFrame_ensures hdecode io).ne_error, fun message rest hread => ?_⟩
  obtain ⟨hlength, -, -, hrest⟩ := readFrame_eq_ok_iff.mp hread
  exact ⟨hlength, hrest⟩

/-- The range request reader is one of the family. -/
theorem RangeProtocolCodec.readRequest_eq :
    readRequest = readFrame (· = 80)
      (fun len => "invalid range request length: " ++ toString len ++ " (expected 80)")
      decodeRequest := by
  funext io
  rw [readRequest, readFrame]
  cases readU32Le io with
  | error e => rfl
  | ok header =>
      obtain ⟨len, io⟩ := header
      by_cases hlen : len = 80
      · subst hlen
        simp only [bind_ok, decodeRequest, bind_assoc, pure_bind, ne_eq, not_true_eq_false,
          if_false, decide_true]
      · simp only [bind_ok, hlen, ne_eq, not_false_eq_true, if_true, decide_false,
          Bool.false_eq_true]
        rfl

/-- The bounds on an accepted length. -/
theorem of_upToMax {low len : ℕ} (h : upToMax low len = true) :
    low ≤ len ∧ len ≤ maxMessageSize :=
  of_decide_eq_true h

/-- The count of a found response, in the two bytes behind its status. -/
def announcedCount (io : Bytes) : ℕ := LittleEndian.combine ((io.drop 5).take 2)

/-- A response that was read has no more addresses than it counts. -/
theorem AddrProtocolCodec.length_le_announcedCount {PeerId : Type}
    {formats : AddrFormats PeerId} {io rest : Bytes} {response : AddrResponse}
    (hread : readResponse formats io = .ok (response, rest)) :
    response.addresses.length ≤ announcedCount io := by
  obtain ⟨hlength, haccepts, hdecode, -⟩ := readFrame_eq_ok_iff.mp hread
  obtain ⟨hpos, hmax⟩ := of_upToMax haccepts
  set frame : Bytes := (io.drop 4).take (announced io) with hframe
  have hsize : frame.length = announced io := by
    rw [hframe, List.length_take, List.length_drop]
    omega
  have hcounted : Ensures CodecError.panic
      (fun res : AddrResponse => res.addresses = [] ∨ (3 ≤ frame.length ∧
        res.addresses.length ≤ LittleEndian.combine ((frame.take 3).drop 1)))
      (decodeStatus "unknown addr status: " .notFound (decodeFound formats) frame.length frame) :=
    decodeStatus_ensures (by omega) (.inl rfl)
      ((decodeFound_ensures formats (by omega)).mono fun _ => .inr)
  rw [← hsize] at hdecode
  rcases hcounted.of_eq_ok hdecode with hnone | ⟨hthree, hcount⟩
  · rw [hnone]
    exact Nat.zero_le _
  · have hbytes : (frame.take 3).drop 1 = (io.drop 5).take 2 := by
      rw [hframe, List.take_take, min_eq_left (by omega), List.drop_take, List.drop_drop]
    rwa [hbytes] at hcount

/-- **The eight readers are total**, the addresses they yield are counted, and the cursor stays
within the frame: behind every turn of the loop, and behind the length that the next turn
reads. -/
theorem readers_total {PeerId : Type} (formats : AddrFormats PeerId) :
    (Total BinaryProtocolCodec.readRequest ∧ Total BinaryProtocolCodec.readResponse ∧
      Total RangeProtocolCodec.readRequest ∧ Total RangeProtocolCodec.readResponse ∧
      Total SliverProtocolCodec.readRequest ∧ Total SliverProtocolCodec.readResponse ∧
      Total (AddrProtocolCodec.readRequest formats) ∧
      Total (AddrProtocolCodec.readResponse formats)) ∧
    (∀ io response rest, AddrProtocolCodec.readResponse formats io = .ok (response, rest) →
      response.addresses.length ≤ announcedCount io) ∧
    ∀ buf : Bytes, 3 ≤ buf.length → buf.length ≤ maxMessageSize → ∀ n pos addresses,
      turns (AddrProtocolCodec.addrTurn formats buf.length buf) n (3, []) = .ok (pos, addresses) →
      pos ≤ buf.length ∧ addresses.length ≤ n ∧ ∀ addrLen cursor,
        AddrProtocolCodec.readAddrLen buf.length buf pos = .ok (addrLen, cursor) →
        cursor ≤ buf.length := by
  have hresponse : ∀ {α : Type} {have_ : Bytes → α} {notFound : α} {buf : Bytes},
      upToMax 1 buf.length = true → Ensures CodecError.panic (fun _ => True)
        (decodeStatus "unknown status: " notFound (decodeRest have_) buf.length buf) :=
    fun haccepts => decodeStatus_ensures (of_upToMax haccepts).1 trivial
      (decodeRest_ensures (of_upToMax haccepts).1)
  refine ⟨⟨?_, ?_, ?_, ?_, ?_, ?_, ?_, ?_⟩, fun io response rest hread => ?_,
    fun buf hstart hmax n pos addresses hturns => ?_⟩
  · exact readFrame_total fun buf haccepts =>
      BinaryProtocolCodec.decodeRequest_ensures (of_upToMax haccepts).1
  · exact readFrame_total fun buf haccepts => decodeStatus_ensures (of_upToMax haccepts).1 trivial
      BinaryProtocolCodec.decodeHave_ensures
  · rw [RangeProtocolCodec.readRequest_eq]
    exact readFrame_total fun buf haccepts =>
      RangeProtocolCodec.decodeRequest_ensures (of_decide_eq_true haccepts)
  · exact readFrame_total fun buf => hresponse
  · exact readFrame_total fun buf haccepts =>
      SliverProtocolCodec.decodeRequest_ensures (of_decide_eq_true haccepts)
  · exact readFrame_total fun buf => hresponse
  · exact readFrame_total fun buf _ => AddrProtocolCodec.decodeRequest_ensures formats
  · exact readFrame_total fun buf haccepts => decodeStatus_ensures (of_upToMax haccepts).1 trivial
      ((AddrProtocolCodec.decodeFound_ensures formats (of_upToMax haccepts).2).mono
        fun _ _ => trivial)
  · exact AddrProtocolCodec.length_le_announcedCount hread
  · obtain ⟨hpos, hcount⟩ :=
      (AddrProtocolCodec.turns_ensures formats hmax hstart n).of_eq_ok hturns
    refine ⟨hpos, hcount, fun addrLen cursor hcursor => ?_⟩
    exact ((AddrProtocolCodec.readAddrLen_ensures hpos hmax).of_eq_ok hcursor).2

/-- A response that counts one address, of no bytes, with a byte behind the frame. -/
theorem readers_total_emptyAddress :
    AddrProtocolCodec.readResponse AddrProtocolCodec.sampleFormats [5, 0, 0, 0, 1, 1, 0, 0, 0, 9]
      = .ok (⟨[]⟩, [9]) ∧
    4 + announced [5, 0, 0, 0, 1, 1, 0, 0, 0, 9] ≤ 10 ∧
    ([] : List Multiaddr).length ≤ announcedCount [5, 0, 0, 0, 1, 1, 0, 0, 0, 9] ∧
    5 ≤ ([1, 1, 0, 0, 0] : Bytes).length := by
  have hread : AddrProtocolCodec.readResponse AddrProtocolCodec.sampleFormats
      [5, 0, 0, 0, 1, 1, 0, 0, 0, 9] = .ok (⟨[]⟩, [9]) := rfl
  have hturns : turns (AddrProtocolCodec.addrTurn AddrProtocolCodec.sampleFormats 5
      [1, 1, 0, 0, 0]) 1 (3, []) = .ok (5, []) := rfl
  obtain ⟨⟨-, -, -, -, -, -, -, htotal⟩, hcount, hcursor⟩ :=
    readers_total AddrProtocolCodec.sampleFormats
  exact ⟨hread, ((htotal _).2 _ _ hread).1, hcount _ _ _ hread,
    (hcursor [1, 1, 0, 0, 0] (by decide) (by decide) 1 5 [] hturns).1⟩

end ZingCdn
