import ZingCdn.FrameRoundTrip

/-!
# Reading Back a List of Addresses

The address codec against its own writer. The writer puts a clamped count in front of an entry
for every address; the reader takes as many entries as the count says, one cursor further each
turn. What is behind them in the frame is dropped with it.

## Main results

* `addr_list_round_trip`: the first 65535 addresses come back in their order, and what follows
  the frame is left alone.
-/

namespace ZingCdn

namespace AddrProtocolCodec

variable {PeerId : Type} {formats : AddrFormats PeerId}

/-- An address that is neither cut when written nor changed by its byte format. -/
structure Writable (formats : AddrFormats PeerId) (addr : Multiaddr) : Prop where
  short : (formats.toVec addr).length ≤ u16Max
  parses : formats.tryFrom (formats.toVec addr) = .ok addr

theorem Writable.addrEntry_eq {addr : Multiaddr} (h : Writable formats addr) :
    addrEntry formats addr =
      LittleEndian.split 2 (formats.toVec addr).length ++ formats.toVec addr := by
  simp only [addrEntry, min_eq_left h.short, List.take_length]

theorem Writable.length_addrEntry {addr : Multiaddr} (h : Writable formats addr) :
    (addrEntry formats addr).length = 2 + (formats.toVec addr).length := by
  rw [h.addrEntry_eq, List.length_append, LittleEndian.length_split]

/-- A turn of the loop reads the entry behind the cursor. -/
theorem addrTurn_entry {addr : Multiaddr} (h : Writable formats addr) {before after buf : Bytes}
    (hbuf : buf = before ++ (addrEntry formats addr ++ after)) (hsmall : buf.length ≤ u64Max)
    (addresses : List Multiaddr) :
    addrTurn formats buf.length buf (before.length, addresses) =
      .ok ((before ++ addrEntry formats addr).length, addresses ++ [addr]) := by
  set bytes : Bytes := formats.toVec addr
  have hlong : buf.length = before.length + (2 + bytes.length) + after.length := by
    rw [hbuf, List.length_append, List.length_append, h.length_addrEntry]
    exact (Nat.add_assoc _ _ _).symm
  have hbuf' : buf = before ++ (LittleEndian.split 2 bytes.length ++ (bytes ++ after)) := by
    rw [hbuf, h.addrEntry_eq, List.append_assoc]
  have hpos : addUsize before.length 2 = .ok (before.length + 2) := addUsize_of_le (by omega)
  have hlen : u16FromLe buf before.length = .ok bytes.length := by
    rw [hbuf']
    exact u16FromLe_append _ _ (Nat.lt_succ_of_le h.short) rfl
  have hstop : addUsize (before.length + 2) bytes.length
      = .ok (before.length + 2 + bytes.length) := addUsize_of_le (by omega)
  have htwo : (before ++ LittleEndian.split 2 bytes.length).length = before.length + 2 := by
    rw [List.length_append, LittleEndian.length_split]
  have hrange : byteRange buf (before.length + 2) (before.length + 2 + bytes.length)
      = .ok bytes := by
    rw [hbuf', ← List.append_assoc]
    exact byteRange_append _ bytes after htwo.symm (by rw [htwo])
  have hfirst : ¬buf.length < before.length + 2 := by omega
  have hsecond : ¬buf.length < before.length + 2 + bytes.length := by omega
  have hcursor : before.length + 2 + bytes.length = (before ++ addrEntry formats addr).length := by
    rw [List.length_append, h.length_addrEntry, Nat.add_assoc]
  have hparse : formats.tryFrom bytes = .ok addr := h.parses
  simp only [addrTurn, readAddrLen, hpos, bind_ok, hfirst, if_false, hlen, pure_eq_ok, hstop,
    hsecond, hrange, hparse]
  rw [hcursor]

/-- **The loop reads back the entries** behind the cursor, and stops behind the last. -/
theorem turns_entries {addrs : List Multiaddr} (haddrs : ∀ addr ∈ addrs, Writable formats addr)
    {before after buf : Bytes} (hbuf : buf = before ++ (addrs.flatMap (addrEntry formats) ++ after))
    (hsmall : buf.length ≤ u64Max) (addresses : List Multiaddr) :
    Outcome.turns (addrTurn formats buf.length buf) addrs.length (before.length, addresses) =
      .ok ((before ++ addrs.flatMap (addrEntry formats)).length, addresses ++ addrs) := by
  induction addrs generalizing before addresses with
  | nil => rw [List.flatMap_nil, List.append_nil, List.append_nil, List.length_nil, Outcome.turns]
  | cons addr addrs ih =>
      rw [List.flatMap_cons, List.append_assoc] at hbuf
      have hturn := addrTurn_entry (haddrs addr List.mem_cons_self) hbuf hsmall addresses
      rw [← List.append_assoc] at hbuf
      have hrest := ih (fun a ha => haddrs a (List.mem_cons_of_mem addr ha)) hbuf
        (addresses ++ [addr])
      rw [List.length_cons, Outcome.turns, hturn, bind_ok, hrest, List.flatMap_cons,
        ← List.append_assoc, List.append_assoc addresses, List.singleton_append]

/-- A found response is decoded to as many addresses as its count says. -/
theorem decodeFound_payload {addrs : List Multiaddr}
    (haddrs : ∀ addr ∈ addrs, Writable formats addr) {buf : Bytes}
    (hbuf : buf = [1] ++ (LittleEndian.split 2 (min addrs.length u16Max)
      ++ addrs.flatMap (addrEntry formats)))
    (hsmall : buf.length ≤ u64Max) :
    decodeFound formats buf.length buf = .ok (.found (addrs.take u16Max)) := by
  have hmin : min addrs.length u16Max ≤ 65535 := min_le_right _ _
  set count : Bytes := LittleEndian.split 2 (min addrs.length u16Max)
  have hthree : ([1] ++ count).length = 3 := by
    rw [List.length_append, LittleEndian.length_split]
    rfl
  have hlong : ¬buf.length < 3 := by
    rw [hbuf, ← List.append_assoc, List.length_append, hthree]
    omega
  have hcount : u16FromLe buf 1 = .ok (min addrs.length u16Max) := by
    rw [hbuf]
    exact u16FromLe_append [1] _ (by omega) rfl
  -- the entries that are read, and the entries that are left
  have hsplit : buf = ([1] ++ count) ++ ((addrs.take u16Max).flatMap (addrEntry formats)
      ++ (addrs.drop u16Max).flatMap (addrEntry formats)) := by
    rw [← List.flatMap_append, List.take_append_drop, List.append_assoc]
    exact hbuf
  have hloop := turns_entries
    (fun addr haddr => haddrs addr (List.mem_of_mem_take haddr)) hsplit hsmall []
  rw [hthree, List.length_take, Nat.min_comm, List.nil_append] at hloop
  simp only [decodeFound, hlong, if_false, hcount, bind_ok, hloop, pure_eq_ok]

/-- The whole frame of a response, of one or more addresses. -/
theorem readResponse_writeResponse_cons {addrs : List Multiaddr} (hsome : addrs ≠ [])
    (haddrs : ∀ addr ∈ addrs, Writable formats addr)
    (hpayload : (payload formats ⟨addrs⟩).length ≤ maxMessageSize) (rest : Bytes) :
    readResponse formats (writeResponse formats ⟨addrs⟩ ++ rest) =
      .ok (⟨addrs.take u16Max⟩, rest) := by
  set buf : Bytes := payload formats ⟨addrs⟩ with hbuf
  have hfound : buf = [1] ++ (LittleEndian.split 2 (min addrs.length u16Max)
      ++ addrs.flatMap (addrEntry formats)) := by
    rw [hbuf, payload, if_neg (by rwa [List.isEmpty_iff])]
  have hmax : maxMessageSize = 67108864 := rfl
  have hpos : 1 ≤ buf.length := by
    rw [hfound, List.length_append]
    exact Nat.le_add_right _ _
  have hdecode := decodeFound_payload haddrs hfound (by rw [u64Max]; omega)
  have hstatus : decodeStatus "unknown addr status: " .notFound (decodeFound formats) buf.length
      buf = .ok ⟨addrs.take u16Max⟩ := by
    rw [hfound, List.singleton_append, decodeStatus_found, ← List.singleton_append, ← hfound,
      hdecode, AddrResponse.found]
  rw [readResponse, writeResponse, ← hbuf, asU32_of_lt (by omega), List.append_assoc,
    readFrame_append rfl (by omega), upToMax_one hpos, hstatus, if_pos (decide_eq_true hpayload)]
  rfl

/-- **An address list survives the wire** up to the number of its addresses that a `u16`
counts: the first of them come back in their order, and what follows is left unread. -/
theorem addr_list_round_trip (formats : AddrFormats PeerId) (addrs : List Multiaddr)
    (hbound : ∀ addr ∈ addrs, (formats.toVec addr).length ≤ 65535)
    (hparses : ∀ addr ∈ addrs, formats.tryFrom (formats.toVec addr) = .ok addr)
    (hpayload : (payload formats ⟨addrs⟩).length ≤ maxMessageSize) (rest : Bytes) :
    readResponse formats (writeResponse formats ⟨addrs⟩ ++ rest) =
      .ok (⟨addrs.take (min addrs.length 65535)⟩, rest) ∧
    (addrs.length ≤ 65535 →
      readResponse formats (writeResponse formats ⟨addrs⟩ ++ rest) = .ok (⟨addrs⟩, rest)) := by
  have htake : addrs.take (min addrs.length 65535) = addrs.take u16Max := by
    rw [Nat.min_comm, ← List.take_eq_take_min, u16Max]
  have hread : readResponse formats (writeResponse formats ⟨addrs⟩ ++ rest) =
      .ok (⟨addrs.take u16Max⟩, rest) := by
    by_cases hsome : addrs = []
    · subst hsome
      exact readFrame_notFound rest
    · exact readResponse_writeResponse_cons hsome
        (fun addr haddr => ⟨hbound addr haddr, hparses addr haddr⟩) hpayload rest
  refine ⟨by rw [hread, htake], fun hcount => ?_⟩
  rw [hread, List.take_of_length_le (by rwa [u16Max])]

/-- The byte formats of one loopback address, for peers that are numbers. -/
def sampleFormats : AddrFormats ℕ where
  peerIdToBytes n := List.replicate (n + 1) 0
  peerIdFromBytes bytes := .ok (bytes.length - 1)
  toVec addr := if addr = "/ip4/127.0.0.1/tcp/4001" then loopback else asciiBytes addr
  tryFrom bytes := if bytes = loopback then .ok "/ip4/127.0.0.1/tcp/4001"
    else .error "invalid multiaddr"
where
  loopback : Bytes := [4, 127, 0, 0, 1, 6, 15, 161]

/-- Two addresses with a byte behind them. -/
theorem addr_list_round_trip_loopback :
    readResponse sampleFormats (writeResponse sampleFormats
        ⟨["/ip4/127.0.0.1/tcp/4001", "/ip4/127.0.0.1/tcp/4001"]⟩ ++ [9]) =
      .ok (⟨["/ip4/127.0.0.1/tcp/4001", "/ip4/127.0.0.1/tcp/4001"]⟩, [9]) :=
  (addr_list_round_trip sampleFormats _ (by decide) (by decide) (by decide) [9]).2 (by decide)

/-- A request survives, if the peer id does and its bytes are not too many. -/
theorem readRequest_writeRequest {req : AddrRequest PeerId}
    (hparses : formats.peerIdFromBytes (formats.peerIdToBytes req.peerId) = .ok req.peerId)
    (hpos : 1 ≤ (formats.peerIdToBytes req.peerId).length)
    (hshort : (formats.peerIdToBytes req.peerId).length ≤ 256) (rest : Bytes) :
    readRequest formats (writeRequest formats req ++ rest) = .ok (req, rest) := by
  have hdecode : decodeRequest formats (formats.peerIdToBytes req.peerId).length
      (formats.peerIdToBytes req.peerId) = .ok req := by
    rw [decodeRequest, hparses]
  rw [readRequest, writeRequest, asU32_of_lt (by omega), List.append_assoc,
    readFrame_append rfl (by omega), hdecode, if_pos (decide_eq_true ⟨hpos, hshort⟩)]
  rfl

end AddrProtocolCodec

end ZingCdn
