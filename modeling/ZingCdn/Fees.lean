import ZingCdn.Library.Transition
import ZingCdn.PaymentErrors
import ZingCdn.Steering

/-!
# The Client's Fees and the Contract's

`settlement::compute_fee` is documented as what the client calls to determine how much WAL
to pay: the read price, which an admin sets on chain, for each megabyte read. The client
never calls it. It pays a fixed amount for a whole blob and one frost for each byte of a
range, so the two agree for single prices and sizes only.

The settlement object is modelled with the two functions that make its price, and its runs
are sequences of price updates. What the client pays is `P2pCommand.invoice?`, which every
fetch of every resolve goes out with (`resolve_steered`).

## Main results

* `Settlement.price_bounds`: in every reachable state the price is between 1 and
  `MAX_READ_PRICE_PER_MB`.
* `fee_agreement_iff`: when the fee of a fetch is the contract's.
* `not_fee_agreement`: at the initial price, probing a peer pays another amount.
-/

open Program Program.Prog

namespace ZingCdn

variable {PeerId : Type}

/-! ### The settlement contract -/

/-- `MAX_READ_PRICE_PER_MB`. -/
def maxReadPricePerMb : ℕ := 1000000000

/-- The global settlement object. -/
structure Settlement where
  id : ID
  readPricePerMb : ℕ
deriving DecidableEq

/-- `ReadPriceUpdatedEvent`. -/
structure ReadPriceUpdatedEvent where
  oldPrice : ℕ
  newPrice : ℕ
deriving DecidableEq

namespace Settlement

/-- `settlement::EB_ZERO_PAYMENT`. -/
def ebZeroPayment : ℕ := 0

/-- The shared object that `init` creates. -/
def init (ctx : TxContext) : Settlement := ⟨ctx.freshId, 1000⟩

/-- `compute_fee`. -/
def computeFee (settlement : Settlement) (sizeMb : ℕ) : Except Abort ℕ := do
  require (0 < sizeMb) ebZeroPayment
  checked u64Max (sizeMb * settlement.readPricePerMb)

/-- `set_read_price`, called with the admin cap. -/
def setReadPrice (settlement : Settlement) (pricePerMb : ℕ) :
    Except Abort (Settlement × ReadPriceUpdatedEvent) := do
  require (0 < pricePerMb) 0
  require (pricePerMb ≤ maxReadPricePerMb) 1
  pure ({ settlement with readPricePerMb := pricePerMb },
    ⟨settlement.readPricePerMb, pricePerMb⟩)

/-- One update of the price. -/
def PriceStep (s s' : Settlement) : Prop :=
  ∃ pricePerMb event, s.setReadPrice pricePerMb = .ok (s', event)

/-- The states some sequence of price updates ends in. -/
def Reachable : Settlement → Prop :=
  Transition.Reachable (fun s => ∃ ctx, s = init ctx) PriceStep

/-- The fee is the product, of a size that is not zero, if it fits 64 bits. -/
theorem computeFee_eq_ok_iff {s : Settlement} {sizeMb fee : ℕ} :
    s.computeFee sizeMb = .ok fee ↔
      0 < sizeMb ∧ sizeMb * s.readPricePerMb ≤ u64Max ∧ sizeMb * s.readPricePerMb = fee := by
  simp [computeFee, bind_eq_ok_iff]

/-- A price is set when it is within its bounds. -/
theorem setReadPrice_eq_ok_iff {s s' : Settlement} {pricePerMb : ℕ}
    {event : ReadPriceUpdatedEvent} :
    s.setReadPrice pricePerMb = .ok (s', event) ↔
      0 < pricePerMb ∧ pricePerMb ≤ maxReadPricePerMb ∧ s' = ⟨s.id, pricePerMb⟩ ∧
        event = ⟨s.readPricePerMb, pricePerMb⟩ := by
  simp only [setReadPrice, bind_eq_ok_iff, require_eq_ok_iff, pure_eq_ok, Except.ok.injEq,
    Prod.mk.injEq]
  constructor
  · rintro ⟨-, hpos, -, hmax, rfl, rfl⟩
    exact ⟨hpos, hmax, rfl, rfl⟩
  · rintro ⟨hpos, hmax, rfl, rfl⟩
    exact ⟨(), hpos, (), hmax, rfl, rfl⟩

/-- **The price stays within its bounds.** -/
theorem price_bounds {s : Settlement} (hs : s.Reachable) :
    0 < s.readPricePerMb ∧ s.readPricePerMb ≤ maxReadPricePerMb := by
  refine Transition.Reachable.invariant
    (fun s => 0 < s.readPricePerMb ∧ s.readPricePerMb ≤ maxReadPricePerMb) ?_ ?_ hs
  · rintro s₀ ⟨ctx, rfl⟩
    simp [init, maxReadPricePerMb]
  · rintro s₁ s₂ - ⟨pricePerMb, event, hset⟩
    obtain ⟨hpos, hmax, rfl, -⟩ := setReadPrice_eq_ok_iff.mp hset
    exact ⟨hpos, hmax⟩

end Settlement

/-! ### Megabytes -/

/-- The two readings of a megabyte. -/
inductive Megabyte
  | decimal
  | binary
deriving DecidableEq

/-- The bytes of a megabyte. -/
def Megabyte.bytes : Megabyte → ℕ
  | .decimal => 1000000
  | .binary => 1048576

/-- The megabytes of some bytes, rounded up, and at least 1. -/
def Megabyte.count (m : Megabyte) (bytes : ℕ) : ℕ := max 1 ((bytes + m.bytes - 1) / m.bytes)

/-- There is at least one megabyte. -/
theorem Megabyte.count_pos (m : Megabyte) (bytes : ℕ) : 0 < m.count bytes :=
  Nat.lt_of_lt_of_le Nat.zero_lt_one (Nat.le_max_left _ _)

/-- A range of a resolve is within one megabyte. -/
theorem Megabyte.count_of_short (m : Megabyte) {bytes : ℕ}
    (hshort : bytes ≤ Resolver.rangeChunk) : m.count bytes = 1 := by
  have hle : (bytes + m.bytes - 1) / m.bytes ≤ 1 := by
    rw [Nat.div_le_iff_le_mul_add_pred (by cases m <;> decide)]
    cases m <;> simp only [Megabyte.bytes, Resolver.rangeChunk] at * <;> omega
  exact Nat.max_eq_left hle

/-! ### When the fees agree -/

/-- The bytes a fetch reads, of a blob of the given size. -/
def P2pCommand.bytesRead (size : ℕ) : P2pCommand PeerId → ℕ
  | .fetchBlob .. => size
  | .fetchRange _ _ _ length _ => length
  | _ => 0

/-- The prices at which the fees agree: for a whole blob a divisor of the client's price
with as many megabytes as the quotient, for a range the number of its bytes. -/
def P2pCommand.FairPrice (price : ℕ) (m : Megabyte) (size : ℕ) : P2pCommand PeerId → Prop
  | .fetchBlob .. => price ∣ readFeeWalNanos ∧ m.count size = readFeeWalNanos / price
  | .fetchRange _ _ _ length _ => length = price
  | _ => False

/-- A product is the client's price exactly when one factor divides it and the other is the
quotient. -/
theorem mul_eq_readFee_iff {price n : ℕ} (hprice : 0 < price) :
    n * price = readFeeWalNanos ↔ price ∣ readFeeWalNanos ∧ n = readFeeWalNanos / price := by
  constructor
  · intro hmul
    have hquot : readFeeWalNanos / price = n := Nat.div_eq_of_eq_mul_left hprice hmul.symm
    exact ⟨⟨n, by rw [← hmul, Nat.mul_comm]⟩, hquot.symm⟩
  · rintro ⟨hdvd, rfl⟩
    exact Nat.div_mul_cancel hdvd

/-- The contract's fee for a fetch is the client's exactly at a fair price. -/
theorem computeFee_invoice_iff {s : Settlement} (hprice : 0 < s.readPricePerMb) (m : Megabyte)
    (size : ℕ) {cmd : P2pCommand PeerId} {invoice : Invoice}
    (hinvoice : cmd.invoice? = some invoice) (hshort : cmd.Short) :
    s.computeFee (m.count (cmd.bytesRead size)) = .ok invoice.amount ↔
      cmd.FairPrice s.readPricePerMb m size := by
  rw [Settlement.computeFee_eq_ok_iff]
  cases cmd with
  | fetchBlob peer blobId proof =>
      cases hinvoice
      refine Iff.trans ?_ (mul_eq_readFee_iff hprice)
      constructor
      · rintro ⟨-, -, hmul⟩
        exact hmul
      · intro hmul
        refine ⟨m.count_pos _, ?_, hmul⟩
        calc m.count size * s.readPricePerMb = readFeeWalNanos := hmul
          _ ≤ u64Max := by decide
  | fetchRange peer blobId offset length proof =>
      cases hinvoice
      have hlen : length ≤ Resolver.rangeChunk := hshort
      simp only [P2pCommand.bytesRead, m.count_of_short hlen, P2pCommand.FairPrice,
        feePerByteNanos, Nat.one_mul, Nat.mul_one, Nat.one_pos, true_and]
      constructor
      · rintro ⟨-, heq⟩
        exact heq.symm
      · intro heq
        refine ⟨?_, heq.symm⟩
        calc s.readPricePerMb = length := heq.symm
          _ ≤ Resolver.rangeChunk := hlen
          _ ≤ u64Max := by decide
  | _ => cases hinvoice

/-- **When client and contract agree on the fee.** In every run of a resolve, every fetch
goes out with a proof of a payment of the client's fee for it (or with none); and at every
reachable read price that fee is `compute_fee` of the megabytes read exactly when, for a
whole blob, the price divides 1 000 000 and the blob has as many megabytes as the quotient,
and for a range, when its number of bytes is the price. -/
theorem fee_agreement_iff [DecidableEq PeerId] (self : Resolver PeerId) (lib : Externals PeerId)
    (blobId : BlobId) {t : Trace PeerId} {r : Option (ZingResult ResolveResult)}
    (hrun : (self.resolve lib blobId).Runs t r) {pre post : Trace PeerId}
    {cmd : P2pCommand PeerId} {sent : Bool} {invoice : Invoice}
    (ht : t = pre ++ ⟨.send cmd, sent⟩ :: post) (hinvoice : cmd.invoice? = some invoice)
    {s : Settlement} (hs : s.Reachable) (m : Megabyte) (size : ℕ) :
    Funded self lib pre invoice ∧
      (s.computeFee (m.count (cmd.bytesRead size)) = .ok invoice.amount ↔
        cmd.FairPrice s.readPricePerMb m size) := by
  have hanswers : Respects (steeredContract self lib).rely [] pre :=
    respects_of_forall (fun _ _ => trivial) []
  have hsteered : Steered self lib pre (.send cmd) :=
    (resolve_steered self lib blobId).effect hrun ht hanswers
  refine ⟨hsteered.funded cmd invoice rfl hinvoice, ?_⟩
  exact computeFee_invoice_iff (Settlement.price_bounds hs).1 m size hinvoice
    (hsteered.short cmd rfl)

/-! ### A paid probe -/

/-- The settlement object as it is created. -/
def sampleSettlementObject : Settlement :=
  Settlement.init ⟨⟨List.Vector.replicate 32 0⟩, ⟨⟨List.Vector.replicate 32 9⟩⟩⟩

/-- It is the one of a run without transactions. -/
theorem sampleSettlementObject_reachable : sampleSettlementObject.Reachable :=
  Transition.Reachable.of_init ⟨_, rfl⟩

/-- A resolve from one peer whose payments are executed. -/
def paidRun : Trace ℕ × Option (ZingResult ResolveResult) :=
  payingRun [0] (fun _ => some (List.Vector.replicate 32 8)) paidOutcome

/-- The probe of that resolve, with the digest of its payment. -/
def paidProbe : P2pCommand ℕ :=
  .fetchRange 0 (sampleBlobId [1]).bytes 0 8 (List.Vector.replicate 32 6)

/-- The run sends the probe. -/
theorem exists_paidProbe :
    ∃ pre post, ∃ sent : Bool, paidRun.1 = pre ++ ⟨.send paidProbe, sent⟩ :: post := by
  have hmem : Effect.send paidProbe ∈ paidRun.1.map Sigma.fst := by
    decide +kernel
  obtain ⟨⟨e, sent⟩, hev, rfl⟩ := List.mem_map.mp hmem
  obtain ⟨pre, post, ht⟩ := List.append_of_mem hev
  exact ⟨pre, post, sent, ht⟩

/-- **The client does not pay the contract's fee**: at the initial price it pays 8 frost for
a probe of 8 bytes, where `compute_fee` asks for 1000, and goes out with the digest of that
payment. -/
theorem not_fee_agreement :
    ∃ s : Settlement, s.Reachable ∧ ∃ t r pre post, ∃ sent : Bool, ∃ cmd invoice,
      (payingResolver.resolve paymentExternals (sampleBlobId [1])).Runs t r ∧
      t = pre ++ ⟨.send cmd, sent⟩ :: post ∧ P2pCommand.invoice? cmd = some invoice ∧
      invoice.proof ≠ zeroBytes32 ∧ invoice.amount = 8 ∧
      ∀ (m : Megabyte) (size : ℕ), s.computeFee (m.count (cmd.bytesRead size)) = .ok 1000 := by
  obtain ⟨pre, post, sent, ht⟩ := exists_paidProbe
  refine ⟨sampleSettlementObject, sampleSettlementObject_reachable, paidRun.1, paidRun.2, pre,
    post, sent, paidProbe, _, runs_exec _ [] _, ht, rfl, by decide, rfl, fun m size => ?_⟩
  have hone : m.count (paidProbe.bytesRead size) = 1 :=
    m.count_of_short (by decide : 8 ≤ Resolver.rangeChunk)
  rw [hone]
  rfl

/-- The probe of eight bytes is paid eight, which is not the fee of a megabyte. -/
theorem fee_agreement_iff_paidProbe :
    ∃ pre post, ∃ sent : Bool, paidRun.1 = pre ++ ⟨.send paidProbe, sent⟩ :: post ∧
      Funded payingResolver paymentExternals pre
        ⟨(sampleBlobId [1]).bytes, 8, List.Vector.replicate 32 6⟩ ∧
      ¬ sampleSettlementObject.computeFee (Megabyte.decimal.count (paidProbe.bytesRead 1))
        = .ok 8 := by
  obtain ⟨pre, post, sent, ht⟩ := exists_paidProbe
  obtain ⟨hfunded, hiff⟩ := fee_agreement_iff payingResolver paymentExternals (sampleBlobId [1])
    (runs_exec _ [] _) ht rfl sampleSettlementObject_reachable .decimal 1
  refine ⟨pre, post, sent, ht, hfunded, fun hfee => ?_⟩
  have hfair : (8 : ℕ) = 1000 := hiff.mp hfee
  cases hfair

end ZingCdn
