import ZingCdn.Handler
import ZingCdn.ResolverBounds

/-!
# Assembling a Blob from Ranges

What the two range strategies assemble when the peers they ask answer with the bytes of
one blob: the sequential chunk loop and the window loop end with exactly that blob. The
conditions are on single answers, so that the results apply to one honest peer, to several
of them, or to peers about whom only this is known.

A window is treated in two parts. Which chunks it receives is `Answered`, a relation
between the consecutive offsets it asks for and the chunks in the order of their offsets;
what it appends to the data is then a fact about `assemble` alone.

## Main results

* `rangeChunks_exact`: the sequential chunk loop.
* `assemble_answered`: one window.
* `rangeWindows_exact`: the window loop.
-/

open Program Program.Prog

namespace ZingCdn

open Resolver

variable {PeerId : Type} {c : Contract (@Effect.Ans PeerId)} {h : Trace PeerId}

/-! ### Single requests -/

/-- A fetch returns nothing when its command is lost, and otherwise the data of the
reply. -/
theorem meets_fetch {cmd : P2pCommand PeerId} {Q : Trace PeerId → Option Bytes → Prop}
    (hsend : c.guarantee h (.send cmd))
    (hawait : c.guarantee (h ++ [⟨.send cmd, true⟩]) (.await cmd (some 30)))
    (hlost : c.rely h (.send cmd) false → Q (h ++ [⟨.send cmd, false⟩]) none)
    (hreply : c.rely h (.send cmd) true →
      ∀ reply, c.rely (h ++ [⟨.send cmd, true⟩]) (.await cmd (some 30)) reply →
        Q (h ++ [⟨.send cmd, true⟩] ++ [⟨.await cmd (some 30), reply⟩])
          (Option.bind reply cmd.data?)) :
    Meets c h (fetch cmd) Q := by
  refine ⟨hsend, fun sent hsent => ?_⟩
  cases sent with
  | false => exact hlost hsent
  | true => exact ⟨hawait, fun reply hrep => hreply hsent reply hrep⟩

/-- Awaiting the data of a pending request. -/
theorem meets_awaitNonempty {α : Type} {timeout : ℕ} {pending : α × P2pCommand PeerId}
    {Q : Trace PeerId → Option (α × Bytes) → Prop}
    (hawait : c.guarantee h (.await pending.2 (some timeout)))
    (hreply : ∀ reply, c.rely h (.await pending.2 (some timeout)) reply →
      Q (h ++ [⟨.await pending.2 (some timeout), reply⟩])
        ((Option.bind reply pending.2.data?).bind fun data =>
          if data = [] then none else some (pending.1, data))) :
    Meets c h (awaitNonempty timeout pending) Q := by
  refine meets_bind.mpr ⟨hawait, fun reply hrep => ?_⟩
  have hQ := hreply reply hrep
  refine meets_pure.mpr ?_
  rcases hdata : Option.bind reply pending.2.data? with - | data
  · rw [hdata] at hQ
    exact hQ
  · rw [hdata] at hQ
    by_cases hempty : data = []
    · subst hempty
      exact hQ
    · simp only [Option.bind_some, if_neg hempty] at hQ
      simp only [List.isEmpty_iff, if_neg hempty]
      exact hQ

/-- The connected peers, when every command is sent and the reply is known. -/
theorem meets_connectedPeers {rely : (e : Effect PeerId) → e.Ans → Prop}
    {connected : List PeerId} (hsend : ∀ sent, rely (.send .getConnectedPeers) sent → sent = true)
    (hreply : ∀ reply : Option (List PeerId), rely (.await .getConnectedPeers none) reply →
      reply = some connected) :
    Meets (.under rely) h (@connectedPeers PeerId) fun _ l => l = connected := by
  refine ⟨trivial, fun sent hsent => ?_⟩
  obtain rfl : sent = true := hsend sent hsent
  refine ⟨trivial, fun reply hr => ?_⟩
  obtain rfl : reply = some connected := hreply reply hr
  rfl

/-- A verified blob ends the fetch with a peer's copy. -/
theorem finalizeL1Fetch_verified {rely : (e : Effect PeerId) → e.Ans → Prop}
    {lib : Externals PeerId} {blobId : BlobId} {blob : Bytes}
    (hid : lib.computeBlobId blob = .ok blobId) (key : String) (peer : PeerId)
    (err : Option String) :
    Meets (.under rely) h (finalizeL1Fetch lib blobId key peer blob err)
      fun _ r => r = some (.ok ⟨blob, .l1Peer, true, err⟩) := by
  rw [finalizeL1Fetch]
  rw [verifyBlobById_eq_ok_iff.mpr hid]
  exact ⟨trivial, fun _ _ => ⟨trivial, fun _ _ => ⟨trivial, fun _ _ => rfl⟩⟩⟩

/-- The probes are to the probed peers, in their order. -/
theorem map_fst_probeRequests {blobId : BlobId} {probers : List PeerId}
    {payments : List (PaymentProof × Option String)} (hlen : payments.length = probers.length) :
    (probeRequests blobId (probers.zip (payments.map Prod.fst))).map Prod.fst = probers := by
  rw [probeRequests, List.map_map]
  refine List.map_fst_zip ?_
  rw [List.length_map, hlen]

/-- A probe asks for the first eight bytes. -/
theorem exists_of_mem_probeRequests {blobId : BlobId} {l : List (PeerId × PaymentProof)}
    {x : PeerId × P2pCommand PeerId} (hx : x ∈ probeRequests blobId l) :
    ∃ proof, x = (x.1, .fetchRange x.1 blobId.bytes 0 8 proof) := by
  rw [probeRequests] at hx
  obtain ⟨pair, -, rfl⟩ := List.mem_map.mp hx
  exact ⟨pair.2, rfl⟩

/-- Each response of a list of requests belongs to one of them. -/
theorem exists_of_mem_reduceOption {α β : Type} {R : α → Option β → Prop} {l : List α}
    {responses : List (Option β)} (hresponses : List.Forall₂ R l responses) {y : β}
    (hy : y ∈ responses.reduceOption) : ∃ x ∈ l, R x (some y) := by
  rw [List.reduceOption_mem_iff] at hy
  induction hresponses with
  | nil => cases hy
  | cons hr _ ih =>
      rcases List.mem_cons.mp hy with rfl | hy
      · exact ⟨_, List.mem_cons_self, hr⟩
      · obtain ⟨x, hx, hr⟩ := ih hy
        exact ⟨x, List.mem_cons_of_mem _ hx, hr⟩

/-! ### The sequential chunk loop -/

/-- Past the end of a blob there is nothing, or an empty range. -/
def RangeAnswer (blob : Bytes) (offset length : ℕ) (r : Option Bytes) : Prop :=
  if offset < blob.length then r = some (slice blob offset length) else r = none ∨ r = some []

/-- **The chunk loop assembles the blob** when it is shorter than `maxChunks` chunks, and gives
up otherwise. It never asks from there on. -/
theorem rangeChunks_exact {self : Resolver PeerId} {lib : Externals PeerId} {blobId : BlobId}
    {peer : PeerId} {blob : Bytes}
    (hpay : ∀ h amount, Meets c h (self.resolvePayment lib peer blobId.bytes amount)
      fun _ _ => True)
    (hfetch : ∀ h offset proof, 0 < offset → offset < maxChunks * rangeChunk →
      Meets c h (fetch (.fetchRange peer blobId.bytes offset rangeChunk proof))
        fun _ r => RangeAnswer blob offset rangeChunk r)
    {fuel chunks : ℕ} (err : Option String) (hpos : 0 < chunks)
    (hle : chunks * rangeChunk ≤ blob.length) (hin : chunks ≤ maxChunks)
    (hfuel : maxChunks < chunks + fuel) :
    Meets c h (self.rangeChunks lib blobId peer fuel (chunks * rangeChunk)
      (blob.take (chunks * rangeChunk)) err)
      fun _ r => (blob.length < maxChunks * rangeChunk ∧ ∃ err', r = some (blob, err')) ∨
        (maxChunks * rangeChunk ≤ blob.length ∧ r = none) := by
  have hchunk : 0 < rangeChunk := by decide
  induction fuel generalizing h chunks err with
  | zero => omega
  | succ fuel ih =>
      rw [rangeChunks, Nat.mul_div_cancel _ hchunk]
      split
      · rename_i hmany
        obtain rfl : chunks = maxChunks := Nat.le_antisymm hin hmany
        exact .inr ⟨hle, rfl⟩
      · rename_i hfew
        have hnext : chunks * rangeChunk + rangeChunk = (chunks + 1) * rangeChunk := by ring
        have hwithin : (chunks + 1) * rangeChunk ≤ maxChunks * rangeChunk :=
          Nat.mul_le_mul_right rangeChunk (Nat.not_le.mp hfew)
        have hoffset : 0 < chunks * rangeChunk := Nat.mul_pos hpos hchunk
        refine (hpay h _).bind fun h₁ payment _ _ => ?_
        refine (hfetch h₁ (chunks * rangeChunk) payment.1 hoffset (by omega)).bind
          fun h₂ reply _ hreply => ?_
        rw [RangeAnswer] at hreply
        split at hreply
        · subst hreply
          rename_i hlt
          have hlen := slice_length blob (chunks * rangeChunk) rangeChunk
          have hne : (slice blob (chunks * rangeChunk) rangeChunk).isEmpty = false := by
            rw [List.isEmpty_eq_false_iff, Ne, slice_eq_nil_iff hchunk]
            omega
          show Meets c h₂
            (if (slice blob (chunks * rangeChunk) rangeChunk).isEmpty then _ else _) _
          rw [hne, if_neg Bool.false_ne_true, take_append_slice, hnext]
          split
          · rename_i hshort
            refine .inl ⟨by omega, err <|> payment.2, ?_⟩
            rw [List.take_of_length_le (by omega)]
          · exact ih _ (by omega) (by omega) (by omega) (by omega)
        · have hend : blob.take (chunks * rangeChunk) = blob :=
            List.take_of_length_le (by omega)
          rw [hend]
          rcases hreply with rfl | rfl
          · exact .inl ⟨by omega, _, rfl⟩
          · exact .inl ⟨by omega, _, rfl⟩

/-- The chunk loop from a full first chunk on. -/
theorem rangeChunks_of_first {self : Resolver PeerId} {lib : Externals PeerId} {blobId : BlobId}
    {peer : PeerId} {blob : Bytes}
    (hpay : ∀ h amount, Meets c h (self.resolvePayment lib peer blobId.bytes amount)
      fun _ _ => True)
    (hfetch : ∀ h offset proof, 0 < offset → offset < maxChunks * rangeChunk →
      Meets c h (fetch (.fetchRange peer blobId.bytes offset rangeChunk proof))
        fun _ r => RangeAnswer blob offset rangeChunk r)
    (err : Option String) (hfull : ¬ (slice blob 0 rangeChunk).length < rangeChunk) :
    Meets c h (self.rangeChunks lib blobId peer maxChunks rangeChunk (slice blob 0 rangeChunk) err)
      fun _ r => (blob.length < maxChunks * rangeChunk ∧ ∃ err', r = some (blob, err')) ∨
        (maxChunks * rangeChunk ≤ blob.length ∧ r = none) := by
  have hlen := slice_length blob 0 rangeChunk
  have htake : slice blob 0 rangeChunk = blob.take (1 * rangeChunk) := by simp [slice]
  have hloop := rangeChunks_exact (h := h) hpay hfetch err Nat.one_pos
    (show 1 * rangeChunk ≤ blob.length by omega) (by decide) (show maxChunks < 1 + maxChunks by omega)
  rwa [← htake, Nat.one_mul] at hloop

/-! ### One window -/

/-- The chunks a window received, of `n` consecutive offsets from `offset` on: those inside
the blob with the bytes there, where only the very first of the blob may be missing; none
at the end of the blob; and any beyond it. -/
inductive Answered (blob : Bytes) : ℕ → ℕ → List (ℕ × Bytes) → Prop
  | done (offset : ℕ) : Answered blob offset 0 []
  | missed {offset n : ℕ} {chunks : List (ℕ × Bytes)} :
      (0 < offset → blob.length ≤ offset) → Answered blob (offset + chunkSize) n chunks →
        Answered blob offset (n + 1) chunks
  | got {offset n : ℕ} {chunks : List (ℕ × Bytes)} :
      offset < blob.length → Answered blob (offset + chunkSize) n chunks →
        Answered blob offset (n + 1) ((offset, slice blob offset chunkSize) :: chunks)
  | beyond {offset n : ℕ} {chunks : List (ℕ × Bytes)} (data : Bytes) :
      blob.length < offset → Answered blob (offset + chunkSize) n chunks →
        Answered blob offset (n + 1) ((offset, data) :: chunks)

/-- Chunks that do not start where the data ends add nothing. -/
theorem assemble_of_ne {expected : ℕ} {data : Bytes} {eof : Bool} {chunks : List (ℕ × Bytes)}
    (hne : ∀ chunk ∈ chunks, chunk.1 ≠ expected) :
    assemble expected data eof chunks = ⟨data, !chunks.isEmpty, eof⟩ := by
  cases chunks with
  | nil => rfl
  | cons chunk rest => exact if_pos (hne chunk List.mem_cons_self)

namespace Answered

variable {blob : Bytes} {offset n : ℕ} {chunks : List (ℕ × Bytes)}

/-- Every chunk starts at the offset or later. -/
theorem le_fst (ha : Answered blob offset n chunks) : ∀ chunk ∈ chunks, offset ≤ chunk.1 := by
  induction ha with
  | done => simp
  | missed _ _ ih => exact fun chunk hmem => (Nat.le_add_right _ _).trans (ih chunk hmem)
  | got _ _ ih | beyond _ _ _ ih =>
      intro chunk hmem
      rcases List.mem_cons.mp hmem with rfl | hmem
      · exact Nat.le_refl _
      · exact (Nat.le_add_right _ _).trans (ih chunk hmem)

/-- From the end of the blob on, every chunk starts beyond it. -/
theorem length_lt_fst (ha : Answered blob offset n chunks) (hend : blob.length ≤ offset) :
    ∀ chunk ∈ chunks, blob.length < chunk.1 := by
  induction ha with
  | done => simp
  | missed _ _ ih => exact ih (hend.trans (Nat.le_add_right _ _))
  | got hlt => omega
  | beyond _ hlt _ ih =>
      intro chunk hmem
      rcases List.mem_cons.mp hmem with rfl | hmem
      · exact hlt
      · exact ih (hend.trans (Nat.le_add_right _ _)) chunk hmem

/-- The chunks are in the order of their offsets. -/
theorem pairwise (ha : Answered blob offset n chunks) :
    chunks.Pairwise fun a b => a.1 ≤ b.1 := by
  induction ha with
  | done => exact .nil
  | missed _ _ ih => exact ih
  | got _ hrest ih | beyond _ _ hrest ih =>
      refine .cons (fun chunk hmem => ?_) ih
      exact (Nat.le_add_right _ _).trans (hrest.le_fst chunk hmem)

/-- Once the data is the whole blob, a window adds nothing. -/
theorem assemble_of_end (ha : Answered blob offset n chunks) (hend : blob.length ≤ offset)
    (eof : Bool) : assemble blob.length blob eof chunks = ⟨blob, !chunks.isEmpty, eof⟩ :=
  assemble_of_ne fun chunk hmem => (ha.length_lt_fst hend chunk hmem).ne'

/-- A window whose first chunk is not missing appends its part of the blob; a gap comes
after the whole blob only. -/
theorem assemble_of_first (ha : Answered blob offset n chunks)
    (hfirst : 0 < offset ∨ ∃ data rest, chunks = (offset, data) :: rest)
    (hle : offset ≤ blob.length) (eof : Bool) :
    let a := assemble offset (blob.take offset) eof chunks
    (a.hasGap = true ∧ a.data = blob) ∨
      (a.hasGap = false ∧ a.data = blob.take (offset + n * chunkSize) ∧
        (a.eof = true → eof = true ∨ a.data = blob)) := by
  induction ha generalizing eof with
  | done => exact .inr ⟨rfl, by simp [assemble], .inl⟩
  | @missed offset n chunks hmissed hrest _ =>
      have hpos : 0 < offset := by
        rcases hfirst with hpos | ⟨data, rest, rfl⟩
        · exact hpos
        · have := hrest.le_fst _ List.mem_cons_self
          simp only [chunkSize] at this
          omega
      obtain rfl : offset = blob.length := Nat.le_antisymm hle (hmissed hpos)
      rw [List.take_length, hrest.assemble_of_end (Nat.le_add_right _ _)]
      cases chunks with
      | nil => exact .inr ⟨rfl, (List.take_of_length_le (Nat.le_add_right _ _)).symm, .inl⟩
      | cons => exact .inl ⟨rfl, rfl⟩
  | @got offset n chunks hlt hrest ih =>
      have hlen := slice_length blob offset chunkSize
      have hn : offset + (n + 1) * chunkSize = offset + chunkSize + n * chunkSize := by ring
      rw [assemble, if_neg (by simp), take_append_slice, hn]
      by_cases hfull : offset + chunkSize ≤ blob.length
      · have hfits : ¬ (slice blob offset chunkSize).length < chunkSize := by omega
        have hnext : offset + (slice blob offset chunkSize).length = offset + chunkSize := by
          omega
        have hpos : 0 < offset + chunkSize := Nat.add_pos_right _ (by decide)
        simpa only [hnext, decide_eq_false hfits, Bool.or_false] using ih (.inl hpos) hfull eof
      · -- the chunk is the last of the blob
        have hall : blob.take (offset + chunkSize) = blob := List.take_of_length_le (by omega)
        have hnext : offset + (slice blob offset chunkSize).length = blob.length := by omega
        rw [hall, hnext, hrest.assemble_of_end (by omega)]
        cases chunks with
        | nil =>
            have hwhole : blob.take (offset + chunkSize + n * chunkSize) = blob :=
              List.take_of_length_le (by omega)
            exact .inr ⟨rfl, hwhole.symm, fun _ => .inr rfl⟩
        | cons => exact .inl ⟨rfl, rfl⟩
  | beyond _ hlt => omega

end Answered

/-- **One window**: what it appends, when it received some chunk. A gap leaves either no
data, when the first chunk of the blob is missing, or the whole blob. -/
theorem assemble_answered {blob : Bytes} {offset n : ℕ} {chunks : List (ℕ × Bytes)}
    (ha : Answered blob offset n chunks) (hne : chunks ≠ []) :
    let a := assemble (blob.take offset).length (blob.take offset) false chunks
    (a.hasGap = true ∧ (a.data = [] ∨ a.data = blob)) ∨
      (a.hasGap = false ∧ a.data = blob.take (offset + n * chunkSize) ∧
        (a.eof = true → a.data = blob)) := by
  by_cases hle : offset ≤ blob.length
  · rw [List.length_take_of_le hle]
    by_cases hfirst : 0 < offset ∨ ∃ data rest, chunks = (offset, data) :: rest
    · rcases ha.assemble_of_first hfirst hle false with ⟨hgap, hdata⟩ | ⟨hgap, hdata, heof⟩
      · exact .inl ⟨hgap, .inr hdata⟩
      · exact .inr ⟨hgap, hdata, fun h => (heof h).resolve_left Bool.false_ne_true⟩
    · -- the first chunk of the blob is missing
      obtain ⟨hzero, hmissing⟩ := not_or.mp hfirst
      obtain rfl : offset = 0 := Nat.eq_zero_of_not_pos hzero
      have hlater : ∀ chunk ∈ chunks, chunk.1 ≠ 0 := by
        cases ha with
        | done => exact absurd rfl hne
        | missed _ hrest =>
            intro chunk hmem
            have := hrest.le_fst chunk hmem
            simp only [chunkSize] at this
            omega
        | got => exact absurd ⟨_, _, rfl⟩ hmissing
        | beyond => exact absurd ⟨_, _, rfl⟩ hmissing
      rw [assemble_of_ne hlater]
      exact .inl ⟨by simpa using hne, .inl rfl⟩
  · -- the data is the whole blob already
    have hend : blob.length ≤ offset := (Nat.not_le.mp hle).le
    rw [List.take_of_length_le hend, ha.assemble_of_end hend]
    exact .inl ⟨by simpa using hne, .inr rfl⟩

/-! ### The window loop -/

/-- Sending a list of commands keeps a sublist, with every command that must arrive. -/
theorem meets_sendAll {α : Type} (must : α × P2pCommand PeerId → Prop)
    {l : List (α × P2pCommand PeerId)} (hguarantee : ∀ h cmd, c.guarantee h (.send cmd))
    (hsend : ∀ h, ∀ x ∈ l, must x → ∀ r, c.rely h (.send x.2) r → r = true) :
    Meets c h (sendAll l) fun _ pending => pending.Sublist l ∧ ∀ x ∈ l, must x → x ∈ pending := by
  induction l generalizing h with
  | nil => exact ⟨List.Sublist.refl _, by simp⟩
  | cons x rest ih =>
      obtain ⟨x, cmd⟩ := x
      refine ⟨hguarantee h cmd, fun sent hsent => ?_⟩
      refine (ih fun h' y hy => hsend h' y (List.mem_cons_of_mem _ hy)).bind
        fun h₁ later _ ⟨hsub, hmust⟩ => ?_
      cases sent with
      | true =>
          refine ⟨hsub.cons_cons _, fun y hy hm => ?_⟩
          rcases List.mem_cons.mp hy with rfl | hy
          · exact List.mem_cons_self
          · exact List.mem_cons_of_mem _ (hmust y hy hm)
      | false =>
          refine ⟨hsub.cons _, fun y hy hm => ?_⟩
          rcases List.mem_cons.mp hy with rfl | hy
          · exact absurd (hsend h _ List.mem_cons_self hm _ hsent) (by simp)
          · exact hmust y hy hm

/-- When every command is sent, all are pending. -/
theorem meets_sendAll_of_sent {α : Type} (hguarantee : ∀ h cmd, c.guarantee h (.send cmd))
    (hsent : ∀ h cmd r, c.rely h (.send cmd) r → r = true) (l : List (α × P2pCommand PeerId)) :
    Meets c h (sendAll l) fun _ pending => pending = l := by
  induction l generalizing h with
  | nil => rfl
  | cons x rest ih =>
      refine ⟨hguarantee h x.2, fun sent hs => ?_⟩
      obtain rfl := hsent h x.2 sent hs
      refine ih.bind fun h₁ later _ hlater => ?_
      rw [hlater]
      rfl

/-- The requests of a window start at its offset or later. -/
theorem le_fst_of_mem_chunkRequests {blobId : BlobId} {offset : ℕ}
    {l : List (PeerId × PaymentProof)} {x : ℕ × P2pCommand PeerId}
    (hx : x ∈ chunkRequests blobId offset l) : offset ≤ x.1 := by
  induction l generalizing offset with
  | nil => simp [chunkRequests] at hx
  | cons y rest ih =>
      rcases List.mem_cons.mp hx with rfl | hx
      · exact Nat.le_refl _
      · have := ih hx
        omega

/-- They start before its end. -/
theorem fst_lt_of_mem_chunkRequests {blobId : BlobId} {offset : ℕ}
    {l : List (PeerId × PaymentProof)} {x : ℕ × P2pCommand PeerId}
    (hx : x ∈ chunkRequests blobId offset l) : x.1 < offset + l.length * chunkSize := by
  have hchunk : 0 < chunkSize := by decide
  induction l generalizing offset with
  | nil => cases hx
  | cons y rest ih =>
      have hlen : (y :: rest).length * chunkSize = chunkSize + rest.length * chunkSize := by
        rw [List.length_cons]
        ring
      rcases List.mem_cons.mp hx with rfl | hx
      · show offset < _
        omega
      · have := ih hx
        omega

/-- A request of a window goes to one of its peers, with the proof for it. -/
theorem exists_of_mem_chunkRequests {blobId : BlobId} {offset : ℕ}
    {l : List (PeerId × PaymentProof)} {x : ℕ × P2pCommand PeerId}
    (hx : x ∈ chunkRequests blobId offset l) :
    ∃ pair ∈ l, x.2 = .fetchRange pair.1 blobId.bytes x.1 chunkSize pair.2 := by
  induction l generalizing offset with
  | nil => cases hx
  | cons y rest ih =>
      rcases List.mem_cons.mp hx with rfl | hx
      · exact ⟨y, List.mem_cons_self, rfl⟩
      · obtain ⟨pair, hpair, heq⟩ := ih hx
        exact ⟨pair, List.mem_cons_of_mem _ hpair, heq⟩

/-- A request of a window asks for a chunk at its offset. -/
theorem eq_of_mem_chunkRequests {blobId : BlobId} {offset : ℕ}
    {l : List (PeerId × PaymentProof)} {x : ℕ × P2pCommand PeerId}
    (hx : x ∈ chunkRequests blobId offset l) :
    ∃ peer offset proof, x = (offset, .fetchRange peer blobId.bytes offset chunkSize proof) := by
  obtain ⟨pair, -, heq⟩ := exists_of_mem_chunkRequests hx
  exact ⟨pair.1, x.1, pair.2, Prod.ext rfl heq⟩

/-- The answer to a pending chunk request: the bytes inside the blob, except perhaps for
the first chunk; nothing at its end; anything beyond it. -/
def ChunkReply (blob : Bytes) (x : ℕ × P2pCommand PeerId) (r : Option (ℕ × Bytes)) : Prop :=
  (r = none ∧ (0 < x.1 → blob.length ≤ x.1)) ∨
    (r = some (x.1, slice blob x.1 chunkSize) ∧ x.1 < blob.length) ∨
      ∃ data, r = some (x.1, data) ∧ blob.length < x.1

/-- The chunks of a window, from what was sent and answered. -/
theorem answered_of_pending {blob : Bytes} {blobId : BlobId} {offset : ℕ}
    {l : List (PeerId × PaymentProof)} {pending : List (ℕ × P2pCommand PeerId)}
    {responses : List (Option (ℕ × Bytes))}
    (hsub : pending.Sublist (chunkRequests blobId offset l))
    (hmust : ∀ x ∈ chunkRequests blobId offset l, 0 < x.1 ∧ x.1 < blob.length → x ∈ pending)
    (hreplies : List.Forall₂ (ChunkReply blob) pending responses) :
    Answered blob offset l.length responses.reduceOption := by
  induction l generalizing offset pending responses with
  | nil =>
      obtain rfl := List.sublist_nil.mp hsub
      cases hreplies
      exact .done offset
  | cons y rest ih =>
      have hlater : ∀ x ∈ chunkRequests blobId (offset + chunkSize) rest, offset < x.1 := by
        intro x hx
        have := le_fst_of_mem_chunkRequests hx
        simp only [chunkSize] at this
        omega
      cases hsub with
      | cons _ hsub =>
          refine .missed (fun hpos => ?_) (ih hsub (fun x hx hin => hmust x
            (List.mem_cons_of_mem _ hx) hin) hreplies)
          by_contra hlt
          have hmem := hmust _ List.mem_cons_self ⟨hpos, by show offset < _; omega⟩
          exact lt_irrefl _ (hlater _ (hsub.subset hmem))
      | @cons_cons pending _ _ hsub =>
          obtain ⟨reply, replies, hreply, hlaters, rfl⟩ := List.forall₂_cons_left_iff.mp hreplies
          have hrest : Answered blob (offset + chunkSize) rest.length replies.reduceOption := by
            refine ih hsub (fun x hx hin => ?_) hlaters
            rcases List.mem_cons.mp (hmust x (List.mem_cons_of_mem _ hx) hin) with rfl | hmem
            · exact absurd (hlater _ hx) (lt_irrefl _)
            · exact hmem
          rcases hreply with ⟨rfl, hmissed⟩ | ⟨rfl, hlt⟩ | ⟨data, rfl, hlt⟩
          · exact .missed hmissed hrest
          · exact .got hlt hrest
          · exact .beyond data hlt hrest

/-- **One turn of the window loop**: some of the window's requests are pending, among them
those that must be, and the loop goes on from their responses. -/
theorem meets_rangeWindows_succ {self : Resolver PeerId} {lib : Externals PeerId}
    {blobId : BlobId} {key : String} {lead : PeerId} {others : List PeerId}
    {fuel window : ℕ} {data : Bytes} {err : Option String}
    {Q : Trace PeerId → L1Result → Prop} (must : ℕ × P2pCommand PeerId → Prop)
    (P : ℕ × P2pCommand PeerId → Option (ℕ × Bytes) → Prop)
    (hpay : ∀ h peer amount, Meets c h (self.resolvePayment lib peer blobId.bytes amount)
      fun _ _ => True)
    (hgsend : ∀ h cmd, c.guarantee h (.send cmd))
    (hsend : ∀ h peer offset proof r,
      must (offset, .fetchRange peer blobId.bytes offset chunkSize proof) →
        c.rely h (.send (.fetchRange peer blobId.bytes offset chunkSize proof)) r → r = true)
    (hawait : ∀ h peer offset proof, Meets c h
      (awaitNonempty 30 (offset, .fetchRange peer blobId.bytes offset chunkSize proof))
      fun _ r => P (offset, .fetchRange peer blobId.bytes offset chunkSize proof) r)
    (hafter : ∀ h' proofs pending responses err',
      proofs.length = (lead :: others).length →
      pending.Sublist (chunkRequests blobId (window * (lead :: others).length * chunkSize)
        ((lead :: others).zip proofs)) →
      (∀ x ∈ chunkRequests blobId (window * (lead :: others).length * chunkSize)
        ((lead :: others).zip proofs), must x → x ∈ pending) →
      List.Forall₂ P pending responses →
        Meets c h' (afterWindow self lib blobId key lead others fuel window data err'
          responses.reduceOption) Q) :
    Meets c h (self.rangeWindows lib blobId key lead others (fuel + 1) window data err) Q := by
  rw [rangeWindows_succ]
  refine (meets_mapM_of_forall (P := fun _ _ => True) fun peer _ h' => hpay h' peer _).bind
    fun h₁ payments _ hpayments => ?_
  have hlen : (payments.map Prod.fst).length = (lead :: others).length := by
    rw [List.length_map, hpayments.length_eq]
  refine (meets_sendAll must hgsend ?_).bind fun h₂ pending _ ⟨hsub, hmust⟩ => ?_
  · intro h' x hx hin r hr
    obtain ⟨peer, offset, proof, rfl⟩ := eq_of_mem_chunkRequests hx
    exact hsend h' peer offset proof r hin hr
  refine (meets_mapM_of_forall (P := P) fun x hx h' => ?_).bind
    fun h₃ responses _ hresponses => ?_
  · obtain ⟨peer, offset, proof, rfl⟩ := eq_of_mem_chunkRequests (hsub.subset hx)
    exact hawait h' peer offset proof
  · exact hafter h₃ _ pending responses _ hlen hsub hmust hresponses

/-- **The window loop assembles the blob**: when every request inside the blob is sent and
every peer answers with the bytes there, the loop ends with the whole blob or without a
result. -/
theorem rangeWindows_exact {self : Resolver PeerId} {lib : Externals PeerId} {blobId : BlobId}
    {key : String} {lead : PeerId} {others : List PeerId} {blob : Bytes}
    {Q : Trace PeerId → L1Result → Prop} (hpanic : c.mayPanic)
    (hpay : ∀ h peer amount, Meets c h (self.resolvePayment lib peer blobId.bytes amount)
      fun _ _ => True)
    (hgsend : ∀ h cmd, c.guarantee h (.send cmd))
    (hgawait : ∀ h cmd timeout, c.guarantee h (.await cmd (some timeout)))
    (hsend : ∀ h peer offset proof r, 0 < offset ∧ offset < blob.length →
      c.rely h (.send (.fetchRange peer blobId.bytes offset chunkSize proof)) r → r = true)
    (hreply : ∀ h peer offset proof reply,
      c.rely h (.await (.fetchRange peer blobId.bytes offset chunkSize proof) (some 30)) reply →
        ChunkReply blob (offset, .fetchRange peer blobId.bytes offset chunkSize proof)
          ((Option.bind reply (P2pCommand.data? _)).bind fun data =>
            if data = [] then none else some (offset, data)))
    (hnone : ∀ h, Q h none)
    (hfinal : ∀ h err, Meets c h (finalizeL1Fetch lib blobId key lead blob err) Q)
    (fuel window : ℕ) (err : Option String) :
    Meets c h (self.rangeWindows lib blobId key lead others fuel window
      (blob.take (window * (lead :: others).length * chunkSize)) err) Q := by
  have hfinish : ∀ h data err, data = [] ∨ data = blob →
      Meets c h (finishWindows lib blobId key lead data err) Q := by
    intro h data err hdata
    rw [finishWindows]
    split
    · exact hnone h
    · rename_i hne
      rcases hdata with rfl | rfl
      · exact absurd rfl hne
      · exact hfinal h err
  induction fuel generalizing h window err with
  | zero => exact hpanic
  | succ fuel ih =>
      set n := (lead :: others).length with hn
      set base := window * n * chunkSize with hbase
      refine meets_rangeWindows_succ (fun x => 0 < x.1 ∧ x.1 < blob.length) (ChunkReply blob)
        hpay hgsend hsend (fun h' _ _ _ => meets_awaitNonempty (hgawait h' _ _) fun reply hr =>
          hreply h' _ _ _ reply hr)
        fun h' proofs pending responses err' hlen hsub hmust hreplies => ?_
      have hpairs : ((lead :: others).zip proofs).length = n := by
        rw [List.length_zip, hlen, min_self]
      have hanswered := answered_of_pending hsub hmust hreplies
      rw [hpairs] at hanswered
      rw [afterWindow]
      split
      · -- without any chunk the data is empty still, or whole already
        rename_i hnothing
        rw [List.isEmpty_iff.mp hnothing] at hanswered
        refine hfinish _ _ _ ?_
        rcases Nat.eq_zero_or_pos base with hzero | hpos
        · exact .inl (by rw [hzero, List.take_zero])
        · rw [hn, List.length_cons] at hanswered
          cases hanswered with
          | missed hend _ => exact .inr (List.take_of_length_le (hend hpos))
      · rename_i hne
        have hwindow := assemble_answered hanswered (by simpa using hne)
        rw [← hanswered.pairwise.insertionSort_eq] at hwindow
        simp only
        rcases hwindow with ⟨hgap, hdata⟩ | ⟨hgap, hdata, heof⟩
        · rw [if_pos hgap]
          exact hfinish _ _ _ hdata
        · rw [hgap, if_neg Bool.false_ne_true]
          split
          · exact hnone _
          · split
            · rename_i hend
              rw [heof hend]
              exact hfinal _ _
            · have hnext : base + n * chunkSize = (window + 1) * n * chunkSize := by
                rw [hbase]
                ring
              rw [hdata, hnext]
              exact ih _ _

/-- In the first window, only the request to the lead starts at zero. -/
theorem source_of_mem_chunkRequests {blobId : BlobId} {lead : PeerId} {others : List PeerId}
    {proofs : List PaymentProof} {x : ℕ × P2pCommand PeerId}
    (hx : x ∈ chunkRequests blobId 0 ((lead :: others).zip proofs)) (hzero : x.1 = 0) :
    x.2.source? = some lead := by
  cases proofs with
  | nil => cases hx
  | cons proof proofs =>
      rcases List.mem_cons.mp hx with rfl | hx
      · rfl
      · have := le_fst_of_mem_chunkRequests hx
        simp only [chunkSize] at this
        omega

/-- **Without the first chunk there is no result**: when the lead does not answer the first
request, the loop ends without data. -/
theorem rangeWindows_headless {self : Resolver PeerId} {lib : Externals PeerId}
    {blobId : BlobId} {key : String} {lead : PeerId} {others : List PeerId}
    {Q : Trace PeerId → L1Result → Prop}
    (hpay : ∀ h peer amount, Meets c h (self.resolvePayment lib peer blobId.bytes amount)
      fun _ _ => True)
    (hgsend : ∀ h cmd, c.guarantee h (.send cmd))
    (hgawait : ∀ h cmd timeout, c.guarantee h (.await cmd (some timeout)))
    (hreply : ∀ h proof reply,
      c.rely h (.await (.fetchRange lead blobId.bytes 0 chunkSize proof) (some 30)) reply →
        Option.bind reply (P2pCommand.data? _) = none)
    (hnone : ∀ h, Q h none) (fuel : ℕ) (err : Option String) :
    Meets c h (self.rangeWindows lib blobId key lead others (fuel + 1) 0 [] err) Q := by
  refine meets_rangeWindows_succ (fun _ => False) (fun x r => ∀ y, r = some y → y.1 = x.1 ∧
      (x.1 = 0 → x.2.source? ≠ some lead)) hpay hgsend (fun _ _ _ _ _ hmust => hmust.elim)
    (fun h' peer offset proof => meets_awaitNonempty (hgawait h' _ _) fun reply hr y hy => ?_)
    fun h' proofs pending responses err' hlen hsub _ hresponses => ?_
  · obtain ⟨data, hdata, hy⟩ := Option.bind_eq_some_iff.mp hy
    split at hy
    · cases hy
    · obtain rfl := Option.some.inj hy
      refine ⟨rfl, ?_⟩
      rintro rfl hlead
      obtain rfl : peer = lead := Option.some.inj hlead
      rw [hreply _ _ reply hr] at hdata
      cases hdata
  · have hlater : ∀ chunk ∈ responses.reduceOption.insertionSort (fun a b => a.1 ≤ b.1),
        chunk.1 ≠ 0 := by
      intro chunk hmem hzero
      obtain ⟨x, hx, hfst⟩ :=
        exists_of_mem_reduceOption hresponses ((List.mem_insertionSort _).mp hmem)
      obtain ⟨heq, hsource⟩ := hfst chunk rfl
      have hx0 : x.1 = 0 := heq.symm.trans hzero
      rw [Nat.zero_mul, Nat.zero_mul] at hsub
      exact hsource hx0 (source_of_mem_chunkRequests (hsub.subset hx) hx0)
    rw [afterWindow]
    split
    · exact hnone h'
    · rename_i hne
      have hgap : assemble 0 [] false (responses.reduceOption.insertionSort fun a b => a.1 ≤ b.1)
          = ⟨[], true, false⟩ := by
        rw [assemble_of_ne hlater, Assembly.mk.injEq]
        refine ⟨rfl, ?_, rfl⟩
        rw [Bool.not_eq_true', List.isEmpty_eq_false_iff, ← List.length_pos_iff,
          List.length_insertionSort, List.length_pos_iff]
        simpa using hne
      simp only [List.length_nil, hgap, if_true]
      exact hnone h'

end ZingCdn
