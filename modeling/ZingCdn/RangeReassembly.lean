import ZingCdn.HonestSeeder

/-!
# Range Reassembly

The two range strategies as loops that stop with data: the windows over all working peers,
and the chunks of one peer. When every peer asked holds the blob and sends what its handler
answers, the loops and the handler agree at every boundary. A short chunk, a window without
any chunk, and a gap behind the last chunk all leave the loops with exactly the blob, also
when its size is a multiple of the chunk or of the window; a blob beyond the cap of a loop
leaves it without data.

The handler refuses some unpaid requests as spot checks, and its client cannot tell such a
refusal from the end of the blob. So the blob comes back exactly when no request inside it
is refused; a refused first chunk leaves a loop without data.

## Main results

* `rangeWindows_eq`, `directPeersRangeLoop_cons`: the strategies are their loops, followed
  by the verification of the data.
* `windowLoop_exact`, `fetchRanges_exact`: where the loops stop, for a blob of any size.
* `range_reassembly`: below 512 MiB both loops stop with the blob.
* `not_range_reassembly`: a spot check, and the window loop stops without the blob.
-/

open Program Program.Prog

namespace ZingCdn

variable {PeerId : Type}

/-! ### The loops, up to the verification of their data -/

/-- Where the window loop of `try_direct_peers_range_parallel` stops. -/
inductive WindowEnd
  /-- `break` -/
  | left (data : Bytes) (paymentErr : Option String)
  /-- `if eof` -/
  | atEnd (data : Bytes) (paymentErr : Option String)
  /-- `data.len() > MAX_TOTAL_SIZE` -/
  | tooLarge

/-- Where the range requests of `try_direct_peers_range` to one peer stop. -/
inductive RangeEnd
  /-- `continue` -/
  | nextPeer
  | finished (data : Bytes) (paymentErr : Option String)
  /-- `offset / RANGE_CHUNK >= MAX_CHUNKS` -/
  | tooManyChunks

/-- The data the window loop stops with. -/
def WindowEnd.data? : WindowEnd → Option Bytes
  | .left data _ | .atEnd data _ => some data
  | .tooLarge => none

/-- The data the range requests to one peer stop with. -/
def RangeEnd.data? : RangeEnd → Option Bytes
  | .finished data _ => some data
  | .nextPeer | .tooManyChunks => none

/-- The window loop stops with the blob, up to the cap. -/
def WindowEnd.Exact (blob : Bytes) (e : WindowEnd) : Prop :=
  blob.length ≤ Resolver.maxTotalSize ∧ e.data? = some blob ∨
    Resolver.maxTotalSize < blob.length ∧ e = .tooLarge

/-- The range requests stop with the blob, below the cap. -/
def RangeEnd.Exact (blob : Bytes) (e : RangeEnd) : Prop :=
  blob.length < Resolver.maxChunks * Resolver.rangeChunk ∧ e.data? = some blob ∨
    Resolver.maxChunks * Resolver.rangeChunk ≤ blob.length ∧ e = .tooManyChunks

namespace Resolver

variable (self : Resolver PeerId) (lib : Externals PeerId) (blobId : BlobId)

/-- The window loop of `try_direct_peers_range_parallel` over the working peers. -/
def windowLoop (working : List PeerId) :
    ℕ → ℕ → Bytes → Option String → Action PeerId WindowEnd
  | 0, _, _, _ => .panic
  | fuel + 1, window, data, paymentErr => do
      let baseOffset := window * working.length * chunkSize
      let chunkResults ← working.mapM fun peer =>
        self.resolvePayment lib peer blobId.bytes (chunkSize * feePerByteNanos)
      let paymentErr := paymentErr <|> firstError chunkResults
      let fetches ← sendAll
        (chunkRequests blobId baseOffset (working.zip (chunkResults.map Prod.fst)))
      if fetches.isEmpty then pure (.left data paymentErr)
      else do
        let responses ← fetches.mapM (awaitNonempty 30)
        let chunks := responses.reduceOption
        if chunks.isEmpty then pure (.left data paymentErr)
        else
          let sorted := chunks.insertionSort fun a b => a.1 ≤ b.1
          let assembly := assemble data.length data false sorted
          if assembly.hasGap then pure (.left assembly.data paymentErr)
          else if maxTotalSize < assembly.data.length then pure .tooLarge
          else if assembly.eof then pure (.atEnd assembly.data paymentErr)
          else windowLoop working fuel (window + 1) assembly.data paymentErr

/-- The range requests of `try_direct_peers_range` to one peer: the first chunk, and the
chunk loop unless it is short. -/
def fetchRanges (peer : PeerId) : Action PeerId RangeEnd := do
  let (paymentProof, paymentErr) ←
    self.resolvePayment lib peer blobId.bytes (rangeChunk * feePerByteNanos)
  let reply ← fetch (.fetchRange peer blobId.bytes 0 rangeChunk paymentProof)
  match reply with
  | none => pure .nextPeer
  | some chunk =>
      if chunk.length < rangeChunk then pure (.finished chunk paymentErr)
      else do
        let assembled ← self.rangeChunks lib blobId peer maxChunks rangeChunk chunk paymentErr
        match assembled with
        | none => pure .tooManyChunks
        | some (data, paymentErr) => pure (.finished data paymentErr)

/-- What follows the window loop. -/
def afterWindows (blobIdHex : String) (lead : PeerId) : WindowEnd → Action PeerId L1Result
  | .left data paymentErr => finishWindows lib blobId blobIdHex lead data paymentErr
  | .atEnd data paymentErr => finalizeL1Fetch lib blobId blobIdHex lead data paymentErr
  | .tooLarge => pure none

/-- What the window loop does with the chunks of a window. -/
def afterChunks (working : List PeerId) (fuel window : ℕ) (data : Bytes)
    (paymentErr : Option String) (chunks : List (ℕ × Bytes)) : Action PeerId WindowEnd :=
  if chunks.isEmpty then pure (.left data paymentErr)
  else
    let assembly := assemble data.length data false (chunks.insertionSort fun a b => a.1 ≤ b.1)
    if assembly.hasGap then pure (.left assembly.data paymentErr)
    else if maxTotalSize < assembly.data.length then pure .tooLarge
    else if assembly.eof then pure (.atEnd assembly.data paymentErr)
    else self.windowLoop lib blobId working fuel (window + 1) assembly.data paymentErr

variable {self lib blobId}

/-- One turn of the window loop. A window none of whose requests was sent is one without
chunks. -/
theorem windowLoop_succ {working : List PeerId} {fuel window : ℕ} {data : Bytes}
    {err : Option String} :
    self.windowLoop lib blobId working (fuel + 1) window data err = (do
      let payments ← working.mapM fun peer =>
        self.resolvePayment lib peer blobId.bytes (chunkSize * feePerByteNanos)
      let pending ← sendAll
        (chunkRequests blobId (window * working.length * chunkSize)
          (working.zip (payments.map Prod.fst)))
      let responses ← pending.mapM (awaitNonempty 30)
      self.afterChunks lib blobId working fuel window data (err <|> firstError payments)
        responses.reduceOption) := by
  conv_lhs => unfold windowLoop
  refine congrArg _ (funext fun payments => congrArg _ (funext fun pending => ?_))
  cases pending with
  | nil => rfl
  | cons x rest => rfl

/-- **The parallel strategy is its window loop**, followed by the verification of the
data. -/
theorem rangeWindows_eq {key : String} {lead : PeerId} {others : List PeerId}
    (fuel window : ℕ) (data : Bytes) (err : Option String) :
    self.rangeWindows lib blobId key lead others fuel window data err =
      self.windowLoop lib blobId (lead :: others) fuel window data err >>=
        afterWindows lib blobId key lead := by
  induction fuel generalizing window data err with
  | zero => rfl
  | succ fuel ih =>
      rw [rangeWindows_succ, windowLoop_succ]
      simp only [bind_assoc]
      refine congrArg _ (funext fun payments => congrArg _ (funext fun pending =>
        congrArg _ (funext fun responses => ?_)))
      rw [afterWindow, afterChunks]
      split
      · rfl
      · dsimp only
        split
        · rfl
        · split
          · rfl
          · split
            · rfl
            · exact ih _ _ _

/-- **The sequential strategy asks one peer after the other**: the first that answers ends
it. -/
theorem directPeersRangeLoop_cons {key : String} {peer : PeerId} {rest : List PeerId} :
    self.directPeersRangeLoop lib blobId key (peer :: rest) = (do
      let fetched ← self.fetchRanges lib blobId peer
      match fetched with
      | .nextPeer => self.directPeersRangeLoop lib blobId key rest
      | .finished data err => finalizeL1Fetch lib blobId key peer data err
      | .tooManyChunks => pure none) := by
  rw [directPeersRangeLoop, fetchRanges]
  simp only [bind_assoc]
  refine congrArg _ (funext fun payment => congrArg _ (funext fun reply => ?_))
  cases reply with
  | none => rfl
  | some chunk =>
      dsimp only
      split
      · rfl
      · simp only [bind_assoc]
        refine congrArg _ (funext fun assembled => ?_)
        cases assembled with
        | none => rfl
        | some result => rfl

end Resolver

open Resolver

/-! ### Peers that serve the blob -/

/-- The answers of peers that serve their stores: the P2P node takes every command, and a
range request comes back with what the peer's handler answers it, at some admitted value of
the handler's request counter. -/
def HandlerAnswers (lib : Externals PeerId) (store : PeerId → StoreRead)
    (admitted : ℕ → Bytes32 → ℕ → Prop) : (e : Effect PeerId) → e.Ans → Prop
  | .send _, sent => sent = true
  | .await (.fetchRange peer blobId offset length proof) _, reply =>
      ∃ requestCounter, admitted offset proof requestCounter ∧
        Option.bind reply (P2pCommand.data? (.fetchRange peer blobId offset length proof)) =
          handlerData lib (store peer) requestCounter
            (.fetchRange peer blobId offset length proof)
  | .onchainPay .., o => OnchainOutcome.DigestFits lib o
  | _, _ => True

/-- The request is not refused as an unpaid spot check, if its offset is inside the blob. -/
def Unrefused (blob : Bytes) (offset : ℕ) (proof : Bytes32) (requestCounter : ℕ) : Prop :=
  offset < blob.length → proof ≠ zeroBytes32 ∨ isSpotCheck requestCounter = false

/-- The answers of peers that serve their stores and refuse nothing inside the blob. -/
abbrev RangesServed (lib : Externals PeerId) (store : PeerId → StoreRead) (blob : Bytes) :
    (e : Effect PeerId) → e.Ans → Prop :=
  HandlerAnswers lib store (Unrefused blob)

/-- The bytes of a blob at an offset, or nothing from its end on. -/
def rangeAt (blob : Bytes) (offset length : ℕ) : Option Bytes :=
  if offset < blob.length then some (slice blob offset length) else none

section Served

variable {self : Resolver PeerId} {lib : Externals PeerId} {blobId : BlobId} {blob : Bytes}
  {store : PeerId → StoreRead} {h : Trace PeerId}

/-- A peer that holds the blob answers with the bytes at the offset. -/
theorem RangesServed.data_eq {peer : PeerId} {offset length : ℕ} {proof : Bytes32}
    (timeout : Option ℕ)
    {reply : Option (P2pCommand.Reply (.fetchRange peer blobId.bytes offset length proof))}
    (hholds : store peer (lib.blobIdToString blobId) = .ok (some blob))
    (hfit : offset < blob.length → offset + length ≤ u64Max)
    (hserved : RangesServed lib store blob
      (.await (.fetchRange peer blobId.bytes offset length proof) timeout) reply) :
    Option.bind reply (P2pCommand.data? (.fetchRange peer blobId.bytes offset length proof)) =
      rangeAt blob offset length := by
  obtain ⟨counter, hpaid, hreply⟩ := hserved
  refine hreply.trans ?_
  rw [handlerData, rangeAt]
  split
  · rename_i hlt
    obtain ⟨next, heq⟩ := @handleInboundRangeRequest_eq PeerId lib (store peer) counter
      ⟨blobId.bytes, offset, length, proof⟩ blob hholds (hpaid hlt) (hfit hlt)
    rw [heq, if_neg (Nat.not_le.mpr hlt)]
    rfl
  · rename_i hend
    exact handleInboundRangeRequest_past_end hholds (Nat.not_lt.mp hend)

/-- Payments end while the ranges are served. -/
theorem tame_rangesServed (hcoin : self.CoinTypeParses lib) :
    Tame self lib (.under (RangesServed lib store blob)) blobId "" FromPeer :=
  (tame_live hcoin blobId "").weaken
    (fun _ e r hr => by cases e with
      | onchainPay => exact hr
      | _ => trivial)
    (fun _ _ _ => trivial) id

/-! ### One window -/

/-- The response to a pending chunk request: the bytes there. -/
def ChunkServed (blob : Bytes) (x : ℕ × P2pCommand PeerId) (r : Option (ℕ × Bytes)) : Prop :=
  r = (rangeAt blob x.1 chunkSize).map fun data => (x.1, data)

/-- A served chunk is a reply to its request. -/
theorem ChunkServed.chunkReply {x : ℕ × P2pCommand PeerId} {r : Option (ℕ × Bytes)}
    (hr : ChunkServed blob x r) : ChunkReply blob x r := by
  rw [ChunkServed, rangeAt] at hr
  split at hr
  · rename_i hlt
    exact .inr (.inl ⟨hr, hlt⟩)
  · rename_i hend
    exact .inl ⟨hr, fun _ => Nat.not_lt.mp hend⟩

/-- Awaiting a range from a peer that holds the blob. -/
theorem awaitNonempty_served {α : Type} (timeout : ℕ) (a : α) {peer : PeerId}
    {offset length : ℕ} {proof : PaymentProof} (hpos : 0 < length)
    (hholds : store peer (lib.blobIdToString blobId) = .ok (some blob))
    (hfit : offset < blob.length → offset + length ≤ u64Max) :
    Meets (.under (RangesServed lib store blob)) h
      (awaitNonempty timeout (a, .fetchRange peer blobId.bytes offset length proof))
      fun _ r => r = (rangeAt blob offset length).map fun data => (a, data) := by
  -- the bytes at an offset are never an empty answer
  have hnonempty : (rangeAt blob offset length).bind
      (fun data => if data = [] then none else some (a, data)) =
        (rangeAt blob offset length).map fun data => (a, data) := by
    rw [rangeAt]
    split
    · rename_i hlt
      have hne : slice blob offset length ≠ [] := by
        rw [Ne, slice_eq_nil_iff hpos]
        omega
      simp [hne]
    · rfl
  refine meets_awaitNonempty trivial fun reply hreply => ?_
  have hdata := RangesServed.data_eq (some timeout) hholds hfit hreply
  exact (congrArg (Option.bind · _) hdata).trans hnonempty

/-- The first chunk of a window inside the blob is there. -/
theorem first_of_chunkServed {offset : ℕ} {l : List (PeerId × PaymentProof)}
    {responses : List (Option (ℕ × Bytes))} (hlt : offset < blob.length) (hne : 0 < l.length)
    (hserved : List.Forall₂ (ChunkServed blob) (chunkRequests blobId offset l) responses) :
    ∃ rest, responses.reduceOption = (offset, slice blob offset chunkSize) :: rest := by
  obtain ⟨pair, l, rfl⟩ := List.exists_cons_of_length_pos hne
  obtain ⟨r, rest, hr, -, rfl⟩ := List.forall₂_cons_left_iff.mp hserved
  refine ⟨rest.reduceOption, ?_⟩
  rw [ChunkServed, rangeAt, if_pos hlt] at hr
  subst hr
  rfl

/-- Past the end of the blob a window has no chunk. -/
theorem nil_of_chunkServed {offset : ℕ} {l : List (PeerId × PaymentProof)}
    {responses : List (Option (ℕ × Bytes))} (hend : blob.length ≤ offset)
    (hserved : List.Forall₂ (ChunkServed blob) (chunkRequests blobId offset l) responses) :
    responses.reduceOption = [] := by
  rw [List.eq_nil_iff_forall_not_mem]
  intro y hy
  obtain ⟨x, hx, hr⟩ := exists_of_mem_reduceOption hserved hy
  have hle := le_fst_of_mem_chunkRequests hx
  rw [ChunkServed, rangeAt, if_neg (by omega)] at hr
  cases hr

/-- A window of served chunks has no gap: behind the last chunk of the blob there is none. -/
theorem hasGap_of_chunkServed {offset : ℕ} {l : List (PeerId × PaymentProof)}
    {responses : List (Option (ℕ × Bytes))} (hle : offset ≤ blob.length) (eof : Bool)
    (hserved : List.Forall₂ (ChunkServed blob) (chunkRequests blobId offset l) responses) :
    (assemble offset (blob.take offset) eof responses.reduceOption).hasGap = false := by
  induction l generalizing offset eof responses with
  | nil =>
      obtain rfl := List.forall₂_nil_left_iff.mp hserved
      rfl
  | cons pair l ih =>
      by_cases hlt : offset < blob.length
      · obtain ⟨r, rest, hr, hrest, rfl⟩ := List.forall₂_cons_left_iff.mp hserved
        obtain rfl : r = some (offset, slice blob offset chunkSize) := by
          rw [ChunkServed, rangeAt, if_pos hlt] at hr
          exact hr
        have hlen := slice_length blob offset chunkSize
        rw [List.reduceOption_cons_of_some, assemble, if_neg (by simp), take_append_slice]
        by_cases hfull : offset + chunkSize ≤ blob.length
        · rw [hlen, min_eq_left (by omega)]
          exact ih hfull _ hrest
        · rw [nil_of_chunkServed (by omega) hrest]
          rfl
      · rw [nil_of_chunkServed (Nat.not_lt.mp hlt) hserved]
        rfl

/-- One turn of the window loop: every request of the window is answered with the bytes
there. -/
theorem meets_windowLoop_succ (hcoin : self.CoinTypeParses lib) {working : List PeerId}
    (hholds : ∀ peer ∈ working, store peer (lib.blobIdToString blobId) = .ok (some blob))
    {fuel window : ℕ} {data : Bytes} {err : Option String} {Q : Trace PeerId → WindowEnd → Prop}
    (hfit : ∀ offset < blob.length,
      window * working.length * chunkSize ≤ offset →
      offset < window * working.length * chunkSize + working.length * chunkSize →
        offset + chunkSize ≤ u64Max)
    (hafter : ∀ h' (requests : List (PeerId × PaymentProof)) responses err',
      requests.length = working.length →
      List.Forall₂ (ChunkServed blob)
        (chunkRequests blobId (window * working.length * chunkSize) requests) responses →
      Meets (.under (RangesServed lib store blob)) h' (self.afterChunks lib blobId working fuel
        window data err' responses.reduceOption) Q) :
    Meets (.under (RangesServed lib store blob)) h
      (self.windowLoop lib blobId working (fuel + 1) window data err) Q := by
  have ht : Tame self lib (.under (RangesServed lib store blob)) blobId "" FromPeer :=
    tame_rangesServed hcoin
  rw [windowLoop_succ]
  refine (ht.payAll_meets working _ _).bind fun h₁ payments _ hpayments => ?_
  refine (meets_sendAll_of_sent (fun _ _ => trivial) (fun _ _ _ hsent => hsent) _).bind
    fun h₂ pending _ hpending => ?_
  subst hpending
  have hrequests : (working.zip (payments.map Prod.fst)).length = working.length := by
    rw [List.length_zip, List.length_map, hpayments, min_self]
  refine (meets_mapM_of_forall (P := ChunkServed blob) fun x hx h' => ?_).bind
    fun h₃ responses _ hserved => hafter h₃ _ responses _ hrequests hserved
  have hlast := fst_lt_of_mem_chunkRequests hx
  rw [hrequests] at hlast
  have hfirst := le_fst_of_mem_chunkRequests hx
  obtain ⟨pair, hpair, hrequest⟩ := exists_of_mem_chunkRequests hx
  obtain ⟨offset, cmd⟩ := x
  obtain rfl : cmd = .fetchRange pair.1 blobId.bytes offset chunkSize pair.2 := hrequest
  exact awaitNonempty_served 30 offset (by decide) (hholds _ (List.of_mem_zip hpair).1)
    fun hlt => hfit offset hlt hfirst hlast

/-- **What a window leaves**: past the end of the blob or in its last window, the loop stops
with the blob; it stops without when the data passes the cap; and before that it goes on with
the blob up to the next window. -/
theorem afterChunks_served {working : List PeerId} (hpos : 0 < working.length)
    {fuel window : ℕ} (err : Option String) {requests : List (PeerId × PaymentProof)}
    {responses : List (Option (ℕ × Bytes))} (hrequests : requests.length = working.length)
    (hcap : (blob.take (window * working.length * chunkSize)).length ≤ maxTotalSize)
    (hserved : List.Forall₂ (ChunkServed blob)
      (chunkRequests blobId (window * working.length * chunkSize) requests) responses) :
    let after := self.afterChunks lib blobId working fuel window
      (blob.take (window * working.length * chunkSize)) err responses.reduceOption
    (∃ stopped : WindowEnd, stopped.Exact blob ∧ after = pure stopped) ∨
      window * working.length * chunkSize < blob.length ∧
        (blob.take ((window + 1) * working.length * chunkSize)).length ≤ maxTotalSize ∧
        after = self.windowLoop lib blobId working fuel (window + 1)
          (blob.take ((window + 1) * working.length * chunkSize)) err := by
  have hnext : (window + 1) * working.length * chunkSize
      = window * working.length * chunkSize + working.length * chunkSize := by ring
  rw [hnext]
  set base := window * working.length * chunkSize
  intro after
  by_cases hend : blob.length ≤ base
  · -- the last windows filled the blob exactly
    rw [List.take_of_length_le hend] at hcap
    refine .inl ⟨.left blob err, .inl ⟨hcap, rfl⟩, ?_⟩
    simp only [after]
    rw [afterChunks, nil_of_chunkServed hend hserved, List.isEmpty_nil, if_pos rfl,
      List.take_of_length_le hend]
  · have hlt : base < blob.length := Nat.not_le.mp hend
    obtain ⟨rest, hfirst⟩ := first_of_chunkServed hlt (hrequests ▸ hpos) hserved
    have hwin := answered_of_pending (List.Sublist.refl _) (fun x hx _ => hx)
      (hserved.imp fun _ _ hr => hr.chunkReply)
    rw [hrequests] at hwin
    have hgap := hasGap_of_chunkServed hlt.le false hserved
    have hdata := hwin.assemble_of_first (.inr ⟨_, _, hfirst⟩) hlt.le false
    rw [← hwin.pairwise.insertionSort_eq] at hdata hgap
    have hafter : after = self.afterChunks lib blobId working fuel window (blob.take base) err
        responses.reduceOption := rfl
    rw [afterChunks, List.length_take_of_le hlt.le, hfirst, List.isEmpty_cons,
      if_neg Bool.false_ne_true, ← hfirst] at hafter
    dsimp only at hdata hgap hafter
    obtain ⟨hgap', -⟩ | ⟨-, hall, heof⟩ := hdata
    · rw [hgap] at hgap'
      cases hgap'
    rw [hgap, if_neg Bool.false_ne_true] at hafter
    split at hafter
    · rename_i hlarge
      rw [hall, List.length_take] at hlarge
      exact .inl ⟨.tooLarge, .inr ⟨by omega, rfl⟩, hafter⟩
    · rename_i hsmall
      have hsmall := Nat.not_lt.mp hsmall
      split at hafter
      · rename_i hshort
        have hblob := (heof hshort).resolve_left Bool.false_ne_true
        rw [hblob] at hafter hsmall
        exact .inl ⟨_, .inl ⟨hsmall, rfl⟩, hafter⟩
      · rw [hall] at hafter hsmall
        exact .inr ⟨hlt, hsmall, hafter⟩

/-! ### The loops -/

/-- **Where the window loop stops**, from any window on whose data is the blob up to there and
within the cap. -/
theorem windowLoop_exact (hcoin : self.CoinTypeParses lib) {working : List PeerId}
    (hpos : 0 < working.length)
    (hholds : ∀ peer ∈ working, store peer (lib.blobIdToString blobId) = .ok (some blob))
    (hfit : min blob.length (maxTotalSize + working.length * chunkSize) + chunkSize ≤ u64Max)
    {fuel window : ℕ} (err : Option String)
    (hcap : (blob.take (window * working.length * chunkSize)).length ≤ maxTotalSize)
    (hwindow : window ≤ maxTotalSize + 1) (hfuel : maxTotalSize + 1 < window + fuel) :
    Meets (.under (RangesServed lib store blob)) h
      (self.windowLoop lib blobId working fuel window
        (blob.take (window * working.length * chunkSize)) err)
      fun _ e => e.Exact blob := by
  induction fuel generalizing h window err with
  | zero => omega
  | succ fuel ih =>
      have hle : window ≤ window * working.length * chunkSize := by
        rw [Nat.mul_assoc]
        exact Nat.le_mul_of_pos_right _ (Nat.mul_pos hpos (by decide))
      -- as long as the blob goes on, the window starts within the cap
      have hstart : window * working.length * chunkSize < blob.length →
          window * working.length * chunkSize ≤ maxTotalSize := by
        intro hlt
        rwa [List.length_take_of_le hlt.le] at hcap
      refine meets_windowLoop_succ hcoin hholds (fun offset hlt hfrom hto => ?_)
        fun h' requests responses err' hrequests hserved => ?_
      · have := hstart (by omega)
        omega
      · rcases afterChunks_served hpos err' hrequests hcap hserved with
          ⟨stopped, hexact, hafter⟩ | ⟨hlt, hnext, hafter⟩
        · rw [hafter]
          exact hexact
        · have := hstart hlt
          rw [hafter]
          exact ih err' hnext (by omega) (by omega)

/-- **Where the range requests to one peer stop.** -/
theorem fetchRanges_exact (hcoin : self.CoinTypeParses lib) {peer : PeerId}
    (hholds : store peer (lib.blobIdToString blobId) = .ok (some blob)) (hne : 0 < blob.length) :
    Meets (.under (RangesServed lib store blob)) h (self.fetchRanges lib blobId peer)
      fun _ e => e.Exact blob := by
  have ht : Tame self lib (.under (RangesServed lib store blob)) blobId "" FromPeer :=
    tame_rangesServed hcoin
  have hchunk : ∀ h offset proof, offset < maxChunks * rangeChunk →
      Meets (.under (RangesServed lib store blob)) h
        (fetch (.fetchRange peer blobId.bytes offset rangeChunk proof))
        fun _ data => data = rangeAt blob offset rangeChunk := by
    intro h offset proof hlt
    have hfit : offset + rangeChunk ≤ u64Max := by
      simp only [maxChunks, rangeChunk, u64Max] at hlt ⊢
      omega
    exact meets_fetch trivial trivial
      (fun hlost => absurd (show false = true from hlost) Bool.false_ne_true)
      fun _ reply hreply => RangesServed.data_eq (some 30) hholds (fun _ => hfit) hreply
  have hlen := slice_length blob 0 rangeChunk
  refine (ht.resolvePayment_meets h peer _ _).bind fun h₁ payment _ _ => ?_
  refine (hchunk h₁ 0 payment.1 (by decide)).bind fun h₂ reply _ hreply => ?_
  rw [rangeAt, if_pos hne] at hreply
  subst hreply
  refine Meets.ite (fun hshort => ?_) fun hfull => ?_
  · have hall : slice blob 0 rangeChunk = blob := by
      simpa [slice] using by omega
    have hchunks : rangeChunk ≤ maxChunks * rangeChunk :=
      Nat.le_mul_of_pos_left rangeChunk (by decide)
    exact .inl ⟨by omega, congrArg some hall⟩
  · refine (rangeChunks_of_first (fun h amount => ht.resolvePayment_meets h peer _ amount)
      (fun h offset proof _ hlt => (hchunk h offset proof hlt).mono fun _ data _ hdata => ?_)
      payment.2 hfull).bind fun h₃ assembled _ hdone => ?_
    · rw [hdata, RangeAnswer, rangeAt]
      split <;> simp
    · rcases hdone with ⟨hshort, err, rfl⟩ | ⟨hlong, rfl⟩
      · exact .inl ⟨hshort, rfl⟩
      · exact .inr ⟨hlong, rfl⟩

end Served

/-- **Range reassembly is exact** where no request inside the blob is refused. For every blob
of at least one byte and less than 512 MiB: the window loop over any working peers that hold
it, and the range requests to any one such peer, stop, and with data equal to the blob. -/
theorem range_reassembly {self : Resolver PeerId} {lib : Externals PeerId} {blobId : BlobId}
    {blob : Bytes} (store : PeerId → StoreRead) (hcoin : self.CoinTypeParses lib)
    (hne : 1 ≤ blob.length) (hmax : blob.length < 512 * 1024 * 1024) :
    (∀ working, 1 ≤ working.length →
      (∀ peer ∈ working, store peer (lib.blobIdToString blobId) = .ok (some blob)) →
        ∀ err t o, (self.windowLoop lib blobId working windowFuel 0 [] err).Runs t o →
          (∀ ev ∈ t, RangesServed lib store blob ev.1 ev.2) →
            ∃ stop, o = some stop ∧ stop.data? = some blob) ∧
    ∀ peer, store peer (lib.blobIdToString blobId) = .ok (some blob) →
      ∀ t o, (self.fetchRanges lib blobId peer).Runs t o →
        (∀ ev ∈ t, RangesServed lib store blob ev.1 ev.2) →
          ∃ stop, o = some stop ∧ stop.data? = some blob := by
  have hwindows : blob.length ≤ maxTotalSize := hmax.le
  have hchunks : blob.length < maxChunks * rangeChunk := hmax
  constructor
  · intro working hpos hholds err t o hrun hserved
    have hfit : min blob.length (maxTotalSize + working.length * chunkSize) + chunkSize
        ≤ u64Max := by
      simp only [u64Max, chunkSize]
      omega
    have hloop := windowLoop_exact (h := []) hcoin hpos hholds hfit err
      (show (blob.take (0 * working.length * chunkSize)).length ≤ maxTotalSize by simp)
      (Nat.zero_le _) (show maxTotalSize + 1 < 0 + windowFuel by decide)
    rw [Nat.zero_mul, Nat.zero_mul, List.take_zero] at hloop
    obtain ⟨stop, ho, hexact⟩ := hloop.ends hrun hserved
    exact ⟨stop, ho, (hexact.resolve_right fun hlarge => absurd hlarge.1 (by omega)).2⟩
  · intro peer hholds t o hrun hserved
    obtain ⟨stop, ho, hexact⟩ := (fetchRanges_exact hcoin hholds hne).ends hrun hserved
    exact ⟨stop, ho, (hexact.resolve_right fun hlong => absurd hlong.1 (by omega)).2⟩

/-! ### A spot check -/

/-- An environment whose peers hold the blob and answer every range request at the same
request counter; the rest is as in `garbageEnv`. -/
def seederEnv (blob : Bytes) (requestCounter : ℕ) (h : Trace ℕ) : (e : Effect ℕ) → e.Ans
  | .await (.fetchRange peer id offset length proof) _ =>
      (handlerData sampleExternals (fun _ => .ok (some blob)) requestCounter
        (.fetchRange peer id offset length proof)).map .ok
  | e => garbageEnv h e

/-- The peers of the environment answer as their handlers do. -/
theorem seederEnv_answers {blob : Bytes} {admitted : ℕ → Bytes32 → ℕ → Prop}
    {requestCounter : ℕ} (hadmitted : ∀ offset proof, admitted offset proof requestCounter)
    (h : Trace ℕ) (e : Effect ℕ) :
    HandlerAnswers sampleExternals (fun _ _ => .ok (some blob)) admitted e
      (seederEnv blob requestCounter h e) := by
  cases e with
  | await cmd timeout =>
      cases cmd with
      | fetchRange peer id offset length proof =>
          exact ⟨requestCounter, hadmitted offset proof, bind_toOption_map_ok _⟩
      | _ => trivial
  | send => rfl
  | onchainPay => rintro _ _ ⟨⟩
  | _ => trivial

/-- **A refused chunk is taken for the end of the blob**: the only working peer holds the
blob of the byte 1, and its handler refuses the unpaid request for the first chunk as a spot
check. The window loop stops without data. -/
theorem not_range_reassembly :
    ∃ t stop, (onlineResolver.windowLoop sampleExternals (sampleBlobId [1]) [0] windowFuel 0 []
        none).Runs t (some stop) ∧
      (∀ ev ∈ t, HandlerAnswers sampleExternals (fun _ _ => .ok (some [1])) (fun _ _ _ => True)
        ev.1 ev.2) ∧ stop.data? = some [] :=
  ⟨_, .left [] none, runs_exec (seederEnv [1] 10) [] _,
    forall_exec (seederEnv_answers fun _ _ => trivial) [] _, rfl⟩

/-- A blob of two full ranges and a byte, which is nine chunks of the windows. -/
def threeRanges : Bytes := List.replicate (2 * rangeChunk + 1) 1

theorem length_threeRanges : threeRanges.length = 2 * rangeChunk + 1 := List.length_replicate

/-- Two peers in windows, and one of them alone, bring it back. -/
theorem range_reassembly_threeRanges :
    (∃ stop, (exec (seederEnv threeRanges 1) [] (onlineResolver.windowLoop sampleExternals
      (sampleBlobId threeRanges) [0, 1] windowFuel 0 [] none)).2 = some stop ∧
        stop.data? = some threeRanges) ∧
    ∃ stop, (exec (seederEnv threeRanges 1) [] (onlineResolver.fetchRanges sampleExternals
      (sampleBlobId threeRanges) 0)).2 = some stop ∧ stop.data? = some threeRanges := by
  have hcoin : onlineResolver.CoinTypeParses sampleExternals := by rintro _ _ ⟨⟩
  have hne : 1 ≤ threeRanges.length := by rw [length_threeRanges]; decide
  have hmax : threeRanges.length < 512 * 1024 * 1024 := by rw [length_threeRanges]; decide
  have hserved : ∀ h e, RangesServed sampleExternals (fun _ _ => .ok (some threeRanges))
      threeRanges e (seederEnv threeRanges 1 h e) := seederEnv_answers fun _ _ _ => .inr rfl
  obtain ⟨hwindows, hranges⟩ :=
    range_reassembly (fun _ _ => .ok (some threeRanges)) hcoin hne hmax
  exact ⟨hwindows [0, 1] (by decide) (fun _ _ => rfl) none _ _ (runs_exec (seederEnv _ 1) [] _)
      (forall_exec hserved [] _),
    hranges 0 rfl _ _ (runs_exec (seederEnv _ 1) [] _) (forall_exec hserved [] _)⟩

end ZingCdn
