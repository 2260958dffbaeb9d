import Mathlib.Data.List.Count
import ZingCdn.Wallet

/-!
# When Synthetic Proofs of Payment Collide

Wallets pay in any order, each in its own process; a process counts its payments from zero,
and a synthetic proof hashes the recipient, the blob, the amount and the payment's number.
The fields are told apart in the hashed bytes, because all but the address have a fixed
width. But neither the payer nor the process is among them, and the counter starts again
with every process. So two payments have the same proof exactly when they are for the same
recipient, blob and amount and have the same number in their processes, whoever pays. Two
payments of one process of a wallet never do, as long as its counter does not wrap around.

SHA-256 is taken to be injective on the inputs that occur, none of which it takes to the
zero digest.

## Main results

* `paymentTranscript_inj`: what the hashed bytes determine.
* `payment_proofs_unique_iff`: when two proofs differ, in every run.
* `payment_proofs_unique_process`: the payments of one process.
* `not_payment_proofs_unique`: the first payments of two wallets with one proof.
-/

open Program Program.Prog

namespace ZingCdn

variable {PeerId : Type}

/-! ### Runs of wallets -/

/-- A process of a wallet: the address that pays, and which of its lifetimes this is. -/
structure WalletProcess where
  payer : Address
  lifetime : ℕ
deriving DecidableEq

/-- The `payment_counter` of every process. -/
abbrev PaymentCounters : Type := WalletProcess → ℕ

/-- `payment_counter.fetch_add(1)` in a process. -/
def PaymentCounters.fetchAdd (counters : PaymentCounters) (process : WalletProcess) :
    PaymentCounters :=
  Function.update counters process ((counters process + 1) % 18446744073709551616)

/-- A call of `synthetic_pay`, how many payments its process had counted before, and the
proof it returned. -/
structure SyntheticCall where
  process : WalletProcess
  recipient : Address
  blobHash : Bytes32
  amount : ℕ
  countedBefore : ℕ
  proof : PaymentProof
deriving DecidableEq

/-- Payments in any processes of any wallets, in any order: the processes of the payments,
the counters they leave, and the calls of `synthetic_pay` among them. -/
inductive PaymentRun (lib : Externals PeerId) :
    List WalletProcess → PaymentCounters → List SyntheticCall → Prop
  | start : PaymentRun lib [] (fun _ => 0) []
  /-- a payment on chain is counted too -/
  | onchain {paid : List WalletProcess} {counters : PaymentCounters}
      {calls : List SyntheticCall} (process : WalletProcess) :
      PaymentRun lib paid counters calls →
        PaymentRun lib (paid ++ [process]) (counters.fetchAdd process) calls
  | synthetic {paid : List WalletProcess} {counters : PaymentCounters}
      {calls : List SyntheticCall} (process : WalletProcess) {recipient : Address}
      {blobHash : Bytes32} {amount : ℕ} {proof : PaymentProof} :
      PaymentRun lib paid counters calls → amount ≤ u64Max →
        (syntheticPay lib recipient blobHash amount).Runs
          [⟨.paymentCounterFetchAdd, counters process⟩] (some (.ok proof)) →
        PaymentRun lib (paid ++ [process]) (counters.fetchAdd process)
          (calls ++ [⟨process, recipient, blobHash, amount, paid.count process, proof⟩])

/-- The two calls hash the same: recipient, blob and amount are the same, and the counters
of their processes stood at the same value. -/
def SyntheticCall.SameInputs (a b : SyntheticCall) : Prop :=
  a.recipient = b.recipient ∧ a.blobHash = b.blobHash ∧ a.amount = b.amount ∧
    a.countedBefore % 18446744073709551616 = b.countedBefore % 18446744073709551616

/-! ### The hashed bytes -/

/-- What `synthetic_pay` hashes. -/
def paymentTranscript (lib : Externals PeerId) (recipient : Address) (blobHash : Bytes32)
    (amount c : ℕ) : Bytes :=
  "zing-payment-v1".toUTF8.toList ++ (lib.addressToString recipient).toUTF8.toList
    ++ blobHash.toList ++ leBytes64 amount ++ leBytes64 c

/-- What a call hashes. -/
def SyntheticCall.transcript (lib : Externals PeerId) (call : SyntheticCall) : Bytes :=
  paymentTranscript lib call.recipient call.blobHash call.amount
    (call.countedBefore % 18446744073709551616 + 1)

theorem length_leBytes64 (n : ℕ) : (leBytes64 n).length = 8 := by
  rw [leBytes64_eq, LittleEndian.length_split]

/-- The bytes of a `u64` determine it up to wrapping. -/
theorem leBytes64_mod {n m : ℕ} (h : leBytes64 n = leBytes64 m) :
    n % 18446744073709551616 = m % 18446744073709551616 := by
  rw [leBytes64_eq, leBytes64_eq] at h
  have hcombine := congrArg LittleEndian.combine h
  rwa [LittleEndian.combine_split, LittleEndian.combine_split] at hcombine

/-- **The concatenation is unambiguous**: everything after the address has a fixed width. -/
theorem paymentTranscript_inj {lib : Externals PeerId}
    (haddr : Function.Injective lib.addressToString) {r r' : Address} {b b' : Bytes32}
    {n n' c c' : ℕ} (h : paymentTranscript lib r b n c = paymentTranscript lib r' b' n' c') :
    r = r' ∧ b = b' ∧ leBytes64 n = leBytes64 n' ∧ leBytes64 c = leBytes64 c' := by
  simp only [paymentTranscript] at h
  obtain ⟨h, hcounter⟩ := List.append_inj' h (by rw [length_leBytes64, length_leBytes64])
  obtain ⟨h, hamount⟩ := List.append_inj' h (by rw [length_leBytes64, length_leBytes64])
  obtain ⟨h, hblob⟩ := List.append_inj' h (by rw [b.toList_length, b'.toList_length])
  have htext := List.append_cancel_left h
  exact ⟨haddr (toUTF8_toList_injective htext), List.Vector.eq _ _ hblob, hamount, hcounter⟩

/-- Two calls hash the same bytes exactly when their inputs are the same. -/
theorem SyntheticCall.transcript_eq_iff {lib : Externals PeerId}
    (haddr : Function.Injective lib.addressToString) {a b : SyntheticCall}
    (ha : a.amount ≤ u64Max) (hb : b.amount ≤ u64Max) :
    a.transcript lib = b.transcript lib ↔ a.SameInputs b := by
  simp only [u64Max] at ha hb
  constructor
  · intro h
    obtain ⟨hrecipient, hblob, hamount, hcounter⟩ := paymentTranscript_inj haddr h
    have hamount := leBytes64_mod hamount
    have hcounter := leBytes64_mod hcounter
    exact ⟨hrecipient, hblob, by omega, by omega⟩
  · rintro ⟨hrecipient, hblob, hamount, hcounter⟩
    rw [transcript, transcript, hrecipient, hblob, hamount, hcounter]

/-! ### What a run leaves -/

namespace PaymentRun

variable {lib : Externals PeerId} {paid : List WalletProcess} {counters : PaymentCounters}
  {calls : List SyntheticCall}

/-- A counter is the number of the payments of its process, wrapped around. -/
theorem counters_eq (hrun : PaymentRun lib paid counters calls) (process : WalletProcess) :
    counters process = paid.count process % 18446744073709551616 := by
  have hstep : ∀ {paid : List WalletProcess} {counters : PaymentCounters} (p : WalletProcess),
      counters process = paid.count process % 18446744073709551616 →
        counters.fetchAdd p process = (paid ++ [p]).count process % 18446744073709551616 := by
    intro paid counters p ih
    rw [PaymentCounters.fetchAdd, List.count_append]
    by_cases hp : p = process
    · subst hp
      rw [Function.update_self, ih, List.count_singleton_self, Nat.mod_add_mod]
    · rw [Function.update_of_ne (Ne.symm hp), ih, List.count_singleton]
      simp [hp]
  induction hrun with
  | start => rfl
  | onchain p _ ih => exact hstep p ih
  | synthetic p _ _ _ ih => exact hstep p ih

/-- The proof of a call is the hash of its transcript. -/
theorem proof_eq (hrun : PaymentRun lib paid counters calls) :
    ∀ call ∈ calls, call.amount ≤ u64Max ∧ call.proof = lib.sha256 (call.transcript lib) := by
  induction hrun with
  | start => simp
  | onchain _ _ ih => exact ih
  | @synthetic paid counters calls process recipient blobHash amount proof hrun hamount hpay ih =>
      intro call hcall
      rcases List.mem_append.mp hcall with hcall | hcall
      · exact ih call hcall
      · obtain rfl := List.mem_singleton.mp hcall
        obtain ⟨r, t, ht, hpay⟩ := runs_call_iff.mp hpay
        obtain ⟨hr, rfl⟩ := List.cons.inj ht
        obtain ⟨-, hproof⟩ := runs_ret_iff.mp hpay
        obtain rfl : counters process = r := eq_of_heq (Sigma.mk.inj hr).2
        rw [hrun.counters_eq process] at hproof
        exact ⟨hamount, Except.ok.inj (Option.some.inj hproof)⟩

/-- In one process, every call counts more payments before it than the earlier ones. -/
theorem countedBefore_lt (hrun : PaymentRun lib paid counters calls) :
    (∀ call ∈ calls, call.countedBefore < paid.count call.process) ∧
      calls.Pairwise fun a b => a.process = b.process → a.countedBefore < b.countedBefore := by
  have hgrow : ∀ {paid : List WalletProcess} {calls : List SyntheticCall} (p : WalletProcess),
      (∀ call ∈ calls, call.countedBefore < paid.count call.process) →
        ∀ call ∈ calls, call.countedBefore < (paid ++ [p]).count call.process :=
    fun p ih call hcall => (ih call hcall).trans_le
      ((List.sublist_append_left _ _).count_le _)
  induction hrun with
  | start => simp
  | onchain p _ ih => exact ⟨hgrow p ih.1, ih.2⟩
  | @synthetic paid counters calls process recipient blobHash amount proof _ _ _ ih =>
      constructor
      · intro call hcall
        rcases List.mem_append.mp hcall with hcall | hcall
        · exact hgrow process ih.1 call hcall
        · obtain rfl := List.mem_singleton.mp hcall
          rw [List.count_append, List.count_singleton_self]
          exact Nat.lt_succ_self _
      · refine List.pairwise_append.mpr ⟨ih.2, List.pairwise_singleton _ _, ?_⟩
        intro a ha b hb hprocess
        obtain rfl := List.mem_singleton.mp hb
        have hlt := ih.1 a ha
        rwa [hprocess] at hlt

end PaymentRun

/-! ### Collisions -/

/-- SHA-256 as an ideal hash on some inputs: injective, and never the zero digest. -/
structure IdealHashOn (lib : Externals PeerId) (inputs : Set Bytes) : Prop where
  injOn : Set.InjOn lib.sha256 inputs
  ne_zero : ∀ x ∈ inputs, lib.sha256 x ≠ zeroBytes32

/-- The inputs hashed in a run. -/
def transcripts (lib : Externals PeerId) (calls : List SyntheticCall) : Set Bytes :=
  { x | ∃ call ∈ calls, x = call.transcript lib }

/-- **Proofs are equal exactly for equal inputs.** -/
theorem PaymentRun.proof_eq_iff {lib : Externals PeerId}
    (haddr : Function.Injective lib.addressToString) {paid : List WalletProcess}
    {counters : PaymentCounters} {calls : List SyntheticCall}
    (hrun : PaymentRun lib paid counters calls)
    (hideal : IdealHashOn lib (transcripts lib calls)) {a b : SyntheticCall} (hmem : a ∈ calls)
    (hmem' : b ∈ calls) : a.proof = b.proof ↔ a.SameInputs b := by
  obtain ⟨ha, hproof⟩ := hrun.proof_eq a hmem
  obtain ⟨hb, hproof'⟩ := hrun.proof_eq b hmem'
  rw [hproof, hproof', ← SyntheticCall.transcript_eq_iff haddr ha hb]
  exact hideal.injOn.eq_iff ⟨a, hmem, rfl⟩ ⟨b, hmem', rfl⟩

/-- **The payments of one process have different proofs**, before its counter wraps
around. -/
theorem payment_proofs_unique_process {lib : Externals PeerId}
    (haddr : Function.Injective lib.addressToString) {paid : List WalletProcess}
    {counters : PaymentCounters} {calls : List SyntheticCall}
    (hrun : PaymentRun lib paid counters calls)
    (hideal : IdealHashOn lib (transcripts lib calls))
    (hbound : ∀ process, paid.count process ≤ 18446744073709551616) :
    calls.Pairwise fun a b => a.process = b.process → a.proof ≠ b.proof := by
  obtain ⟨hlast, hlt⟩ := hrun.countedBefore_lt
  refine hlt.imp_of_mem fun {a b} hmem hmem' hlt hprocess hproof => ?_
  obtain ⟨-, -, -, hcounted⟩ := (hrun.proof_eq_iff haddr hideal hmem hmem').mp hproof
  have hcount := hlt hprocess
  have ha := hlast a hmem
  have hb := hlast b hmem'
  have := hbound a.process
  have := hbound b.process
  omega

/-- **Proofs of payment collide exactly on equal inputs.** In every run of any wallets, with
any restarts, no synthetic proof is the zero digest, and of any two calls the proofs differ
if and only if the recipients, the blobs, the amounts or the numbers of payments counted
before in their processes do. -/
theorem payment_proofs_unique_iff {lib : Externals PeerId}
    (haddr : Function.Injective lib.addressToString) {paid : List WalletProcess}
    {counters : PaymentCounters} {calls : List SyntheticCall}
    (hrun : PaymentRun lib paid counters calls)
    (hideal : IdealHashOn lib (transcripts lib calls)) :
    (∀ call ∈ calls, call.proof ≠ zeroBytes32) ∧
      calls.Pairwise fun a b => a.proof ≠ b.proof ↔ ¬ a.SameInputs b := by
  constructor
  · intro call hcall
    rw [(hrun.proof_eq call hcall).2]
    exact hideal.ne_zero _ ⟨call, hcall, rfl⟩
  · exact List.pairwise_of_forall_mem_list fun a hmem b hmem' =>
      not_congr (hrun.proof_eq_iff haddr hideal hmem hmem')

/-! ### Payments of one amount for one blob -/

/-- The transcript of the `c`-th payment of a process, of 100 to the zero address for the
blob of the bytes 2. -/
def sampleTranscript (c : ℕ) : Bytes :=
  paymentTranscript sampleExternals ⟨zeroBytes32⟩ (List.Vector.replicate 32 2) 100 c

/-- The SHA-256 digest of `sampleTranscript 1`. -/
def firstDigest : Bytes32 :=
  ⟨[9, 101, 233, 56, 130, 218, 179, 48, 64, 157, 49, 92, 157, 235, 202, 229, 2, 249, 59, 80, 174,
    103, 224, 78, 63, 55, 244, 219, 28, 8, 93, 179], rfl⟩

/-- The SHA-256 digest of `sampleTranscript 2`. -/
def secondDigest : Bytes32 :=
  ⟨[125, 145, 6, 47, 19, 157, 72, 98, 233, 213, 49, 173, 224, 35, 116, 199, 81, 210, 74, 113, 238,
    106, 133, 181, 31, 9, 244, 197, 195, 96, 148, 208], rfl⟩

/-- Library functions with the SHA-256 digests of these two transcripts. -/
def recordedExternals : Externals ℕ :=
  { sampleExternals with
    sha256 := fun data =>
      if data = sampleTranscript 1 then firstDigest
      else if data = sampleTranscript 2 then secondDigest
      else sampleExternals.sha256 data }

/-- A payment of 100 to the zero address for the blob of the bytes 2. -/
def samplePayment (process : WalletProcess) (countedBefore : ℕ) : SyntheticCall where
  process
  recipient := ⟨zeroBytes32⟩
  blobHash := List.Vector.replicate 32 2
  amount := 100
  countedBefore
  proof := recordedExternals.sha256 (sampleTranscript (countedBefore + 1))

/-- A run goes on with such a payment. -/
theorem PaymentRun.sample {paid : List WalletProcess} {counters : PaymentCounters}
    {calls : List SyntheticCall} (hrun : PaymentRun recordedExternals paid counters calls)
    (process : WalletProcess) (hcount : paid.count process < 18446744073709551616) :
    PaymentRun recordedExternals (paid ++ [process]) (counters.fetchAdd process)
      (calls ++ [samplePayment process (paid.count process)]) := by
  refine .synthetic process hrun (by decide) (.call _ ?_)
  rw [hrun.counters_eq process, Nat.mod_eq_of_lt hcount]
  exact .ret _

theorem sampleTranscript_ne : sampleTranscript 2 ≠ sampleTranscript 1 := by
  intro h
  obtain ⟨-, -, -, hcounter⟩ :=
    paymentTranscript_inj sampleExternals_addressToString_injective h
  exact absurd hcounter (by decide)

/-- The digests are ideal on the first two payments. -/
theorem recordedExternals_ideal {inputs : Set Bytes}
    (hinputs : inputs ⊆ {sampleTranscript 1, sampleTranscript 2}) :
    IdealHashOn recordedExternals inputs := by
  have hfirst : recordedExternals.sha256 (sampleTranscript 1) = firstDigest := if_pos rfl
  have hsecond : recordedExternals.sha256 (sampleTranscript 2) = secondDigest :=
    (if_neg sampleTranscript_ne).trans (if_pos rfl)
  have hne : firstDigest ≠ secondDigest := by decide
  constructor
  · intro x hx y hy hxy
    rcases hinputs hx with rfl | rfl <;> rcases hinputs hy with rfl | rfl
    · rfl
    · exact absurd (hfirst.symm.trans (hxy.trans hsecond)) hne
    · exact absurd (hfirst.symm.trans (hxy.symm.trans hsecond)) hne
    · rfl
  · intro x hx
    rcases hinputs hx with rfl | rfl
    · rw [hfirst]
      decide
    · rw [hsecond]
      decide

/-- **Two payers, one proof**: two wallets pay the same amount to the same recipient for the
same blob, each as the first payment of its process, and the second wallet once more after a
restart. All three proofs are the same. -/
theorem not_payment_proofs_unique :
    ∃ paid counters a b c, PaymentRun recordedExternals paid counters [a, b, c] ∧
      IdealHashOn recordedExternals (transcripts recordedExternals [a, b, c]) ∧
      a.process.payer ≠ b.process.payer ∧ b.process.payer = c.process.payer ∧
      b.process.lifetime ≠ c.process.lifetime ∧ a.proof = b.proof ∧ b.proof = c.proof := by
  let p : WalletProcess := ⟨⟨List.Vector.replicate 32 1⟩, 0⟩
  let q : WalletProcess := ⟨⟨List.Vector.replicate 32 3⟩, 0⟩
  let q' : WalletProcess := ⟨⟨List.Vector.replicate 32 3⟩, 1⟩
  refine ⟨_, _, samplePayment p 0, samplePayment q 0, samplePayment q' 0,
    ((PaymentRun.start.sample p (by decide)).sample q (by decide)).sample q' (by decide),
    recordedExternals_ideal ?_, by decide, rfl, by decide, rfl, rfl⟩
  rintro x ⟨call, hcall, rfl⟩
  simp only [List.mem_cons, List.not_mem_nil, or_false] at hcall
  rcases hcall with rfl | rfl | rfl <;> exact .inl rfl

theorem payment_proofs_unique_iff_twice :
    let a := samplePayment ⟨⟨zeroBytes32⟩, 0⟩ 0
    let b := samplePayment ⟨⟨zeroBytes32⟩, 0⟩ 1
    a.proof ≠ zeroBytes32 ∧ b.proof ≠ zeroBytes32 ∧ a.proof ≠ b.proof := by
  intro a b
  have haddr : Function.Injective recordedExternals.addressToString :=
    sampleExternals_addressToString_injective
  have hrun : PaymentRun recordedExternals _ _ [a, b] :=
    (PaymentRun.start.sample ⟨⟨zeroBytes32⟩, 0⟩ (by decide)).sample ⟨⟨zeroBytes32⟩, 0⟩
      (by decide)
  have hideal : IdealHashOn recordedExternals (transcripts recordedExternals [a, b]) := by
    refine recordedExternals_ideal ?_
    rintro x ⟨call, hcall, rfl⟩
    simp only [List.mem_cons, List.not_mem_nil, or_false] at hcall
    rcases hcall with rfl | rfl
    · exact .inl rfl
    · exact .inr rfl
  obtain ⟨hzero, hpairs⟩ := payment_proofs_unique_iff haddr hrun hideal
  have hpair := (List.pairwise_cons.mp hpairs).1 b List.mem_cons_self
  refine ⟨hzero a List.mem_cons_self, hzero b (List.mem_cons_of_mem _ List.mem_cons_self),
    hpair.mpr ?_⟩
  rintro ⟨-, -, -, hcounted⟩
  exact absurd hcounted (by decide)

end ZingCdn
