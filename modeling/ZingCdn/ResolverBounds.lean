import Mathlib.Data.List.ReduceOption
import ZingCdn.Resolver

/-!
# What Every Strategy Does

The facts about the resolver that hold for every behaviour of its environment and do not
depend on what the bytes are: which effects a strategy performs apart from ending a fetch,
how many commands it sends, and that its loops end.

They are stated for an arbitrary contract, in three layers of what it must allow:
`Inquiring`, looking around without a fetch; `Quiet`, also the fetches and the panics of a
payment; and `Tame`, also the end of a fetch (`finalizeL1Fetch`) with results that satisfy
`Good`. Every strategy then meets the contract with a result that satisfies `Good` and a
number of commands that depends on the length of the peer lists it was given only.

## Main results

* `rangeWindows_bound`: the window loop ends within the windows whose data fit the size
  cap.
* `resolveFromL1_bound`: the four strategies send at most `l1Commands P` commands when no
  peer list is longer than `P`.
-/

open Program Program.Prog

namespace ZingCdn

variable {PeerId : Type}

/-! ### Effects -/

/-- The effects other than using the store and blaming a peer. A reply is awaited without a
timeout only where the node sends it at once. -/
def Effect.Benign : Effect PeerId → Prop
  | .storeGet _ | .storePut .. | .evictionRun | .recordCorruption _ => False
  | .await cmd none => cmd.answeredAtOnce
  | _ => True

/-- The proof of payment an effect sends. -/
def Effect.proof? : Effect PeerId → Option Bytes32
  | .send cmd => cmd.proof?
  | _ => none

/-- The local effects of a payment: looking up the address of the peer that is paid, the
attempt on chain, and counting the payment. -/
def Effect.pays : Effect PeerId → Bool
  | .suiAddrCacheGet _ | .onchainPay .. | .paymentCounterFetchAdd => true
  | _ => false

/-- The number of commands an effect sends. -/
def Effect.sends : Effect PeerId → ℕ
  | .send _ => 1
  | _ => 0

/-- The peers listed in an answer. -/
def Effect.peers : (e : Effect PeerId) → e.Ans → List PeerId
  | .await .getConnectedPeers _, some l => l
  | .await (.findProviders _) _, some l => l
  | _, _ => []

/-- No peer list in the trace is longer than `P`. -/
def PeersBounded (P : ℕ) (t : Trace PeerId) : Prop :=
  ∀ ev ∈ t, (ev.1.peers ev.2).length ≤ P

/-- A bound on the listed peers holds of a first part. -/
theorem PeersBounded.of_prefix {P : ℕ} {t t' : Trace PeerId} (hpre : t <+: t')
    (ht : PeersBounded P t') : PeersBounded P t :=
  fun ev hev => ht ev (hpre.subset hev)

/-- `Costs` for the number of commands sent, in runs with bounded peer lists. -/
abbrev Sends (c : Contract (@Effect.Ans PeerId)) (P : ℕ) (h : Trace PeerId) {α : Type}
    (p : Action PeerId α) (n : ℕ) (Q : Trace PeerId → α → Prop) : Prop :=
  Costs c (PeersBounded P) Effect.sends h p n Q

/-- What a contract must allow of looking around: the benign effects that neither pay nor
send a proof of payment. -/
structure Inquiring (c : Contract (@Effect.Ans PeerId)) : Prop where
  benign : ∀ h e, Effect.Benign e → e.proof? = none → e.pays = false → c.guarantee h e

/-- What a contract must allow of a strategy apart from the end of a fetch. -/
structure Quiet (node : Resolver PeerId) (lib : Externals PeerId)
    (c : Contract (@Effect.Ans PeerId)) : Prop extends Inquiring c where
  sends : ∀ h cmd, c.guarantee h (.send cmd)
  payments : ∀ h e, Effect.pays e = true → c.guarantee h e
  pays : ∀ h recipient blobHash amount o wallet settlement,
    node.wallet = some wallet → wallet.settlement = some settlement →
      c.rely h (.onchainPay recipient blobHash amount) o →
        wallet.tryOnchainPay lib settlement recipient blobHash amount o = none → c.mayPanic

/-- What a contract must allow for the strategies to meet it. -/
structure Tame (node : Resolver PeerId) (lib : Externals PeerId)
    (c : Contract (@Effect.Ans PeerId)) (blobId : BlobId) (key : String)
    (Good : L1Result → Prop) : Prop extends Quiet node lib c where
  finalize : ∀ h peer data err,
    Meets c h (Resolver.finalizeL1Fetch lib blobId key peer data err) fun _ r => Good r
  nothing : Good none

open Resolver

/-! ### The end of a fetch -/

/-- Verified data has the expected id. -/
theorem verifyBlobById_eq_ok_iff {lib : Externals PeerId} {blobId : BlobId} {data : Bytes} :
    verifyBlobById lib blobId data = .ok () ↔ lib.computeBlobId data = .ok blobId := by
  rw [verifyBlobById]
  cases hcomputed : lib.computeBlobId data with
  | error e => simp
  | ok computed => by_cases heq : computed = blobId <;> simp [heq]

/-- Data of another id fails verification. -/
theorem verifyBlobById_error {lib : Externals PeerId} {blobId : BlobId} {data : Bytes}
    (hwrong : lib.computeBlobId data ≠ .ok blobId) :
    ∃ e, verifyBlobById lib blobId data = .error e := by
  rcases hverified : verifyBlobById lib blobId data with e | _
  · exact ⟨e, rfl⟩
  · exact absurd (verifyBlobById_eq_ok_iff.mp hverified) hwrong

/-- The end of a fetch sends no command. -/
theorem sends_finalizeL1Fetch {lib : Externals PeerId} {c : Contract (@Effect.Ans PeerId)}
    {blobId : BlobId} {key : String} {peer : PeerId} {data : Bytes} {err : Option String}
    {h : Trace PeerId} {Q : Trace PeerId → L1Result → Prop} (P n : ℕ)
    (hend : Meets c h (finalizeL1Fetch lib blobId key peer data err) Q) :
    Sends c P h (finalizeL1Fetch lib blobId key peer data err) n Q := by
  rw [finalizeL1Fetch] at hend ⊢
  generalize verifyBlobById lib blobId data = verified at hend ⊢
  cases verified with
  | error e =>
      obtain ⟨hblame, hnone⟩ := hend
      exact Costs.call (m := 0) hblame (fun r hr => costs_pure (hnone r hr)) (Nat.zero_le n)
  | ok u =>
      obtain ⟨hput, hend⟩ := hend
      refine Costs.call (m := 0) hput (fun r hr => ?_) (Nat.zero_le n)
      obtain ⟨hrun, hend⟩ := hend r hr
      refine Costs.call (m := 0) hrun (fun r' hr' => ?_) (Nat.zero_le 0)
      obtain ⟨hcredit, hend⟩ := hend r' hr'
      exact Costs.call (m := 0) hcredit (fun r'' hr'' => costs_pure (hend r'' hr''))
        (Nat.zero_le 0)

/-- One strategy after another: the next one runs when the first has no result. -/
theorem meets_orElse {c : Contract (@Effect.Ans PeerId)} {h : Trace PeerId}
    {first next : Action PeerId L1Result} {Q : Trace PeerId → L1Result → Prop}
    (hfirst : Meets c h first fun h' r =>
      (r = none → Meets c h' next Q) ∧ (r ≠ none → Q h' r)) :
    Meets c h (Resolver.orElse first next) Q := by
  refine hfirst.bind fun h' r _ ⟨hnone, hsome⟩ => ?_
  cases r with
  | none => exact hnone rfl
  | some result => exact hsome (Option.some_ne_none result)

/-! ### The layers of a resolve -/

section Layers

variable {c : Contract (@Effect.Ans PeerId)} {h : Trace PeerId} {lib : Externals PeerId}
  {blobId : BlobId} {key : String} {Q : Trace PeerId → ZingResult ResolveResult → Prop}

/-- Walrus: the blob that is read is put and the store evicted, and any of this may fail. -/
theorem meets_resolveFromWalrus (hread : c.guarantee h (.walrusRead blobId))
    (hput : ∀ data, c.rely h (.walrusRead blobId) (.ok data) →
      c.guarantee (h ++ [⟨.walrusRead blobId, .ok data⟩]) (.storePut key data) ∧
        ∀ h', Q h' (.ok ⟨data, .l3Walrus, true, none⟩))
    (hevict : ∀ h', c.guarantee h' .evictionRun) (hfail : ∀ h' e, Q h' (.error e)) :
    Meets c h (Resolver.resolveFromWalrus blobId key) Q := by
  refine ⟨hread, fun read hrely => ?_⟩
  cases read with
  | error e => exact hfail _ _
  | ok data =>
      obtain ⟨hguarantee, hdone⟩ := hput data hrely
      refine ⟨hguarantee, fun stored _ => ?_⟩
      cases stored with
      | error e => exact hfail _ _
      | ok u =>
          refine ⟨hevict _, fun evicted _ => ?_⟩
          cases evicted with
          | error e => exact hfail _ _
          | ok u => exact hdone _

variable [DecidableEq PeerId] {self : Resolver PeerId}

/-- The layers below the local cache: Walrus is read when there is no channel to the node, and
when the peers have no result. -/
theorem meets_resolveUncached {L : Trace PeerId → L1Result → Prop}
    (hl1 : Meets c h (self.resolveFromL1 lib blobId key) L)
    (hfound : ∀ h' result, L h' (some result) → Q h' result)
    (hmiss : ∀ h', L h' none → Meets c h' (Resolver.resolveFromWalrus blobId key) Q)
    (hskip : self.hasP2pChannel = false → Meets c h (Resolver.resolveFromWalrus blobId key) Q) :
    Meets c h (self.resolveUncached lib blobId key) Q := by
  refine Meets.ite (fun _ => ?_) fun hno => hskip (Bool.eq_false_of_not_eq_true hno)
  refine hl1.bind fun h' l1 _ hl1 => ?_
  cases l1 with
  | none => exact hmiss h' hl1
  | some result => exact hfound h' result hl1

/-- A resolve: the local cache, and the layers below it when the blob is not there. -/
theorem meets_resolve (hget : c.guarantee h (.storeGet (lib.blobIdToString blobId)))
    (hfail : ∀ e, c.rely h (.storeGet (lib.blobIdToString blobId)) (.error e) →
      Q (h ++ [⟨.storeGet (lib.blobIdToString blobId), .error e⟩]) (.error (.cache e)))
    (hlocal : ∀ data, c.rely h (.storeGet (lib.blobIdToString blobId)) (.ok (some data)) →
      Q (h ++ [⟨.storeGet (lib.blobIdToString blobId), .ok (some data)⟩])
        (.ok ⟨data, .localCache, true, none⟩))
    (hmiss : c.rely h (.storeGet (lib.blobIdToString blobId)) (.ok none) →
      Meets c (h ++ [⟨.storeGet (lib.blobIdToString blobId), .ok none⟩])
        (self.resolveUncached lib blobId (lib.blobIdToString blobId)) Q) :
    Meets c h (self.resolve lib blobId) Q := by
  refine ⟨hget, fun cached hrely => ?_⟩
  rcases cached with e | - | data
  · exact hfail e hrely
  · exact hmiss hrely
  · exact hlocal data hrely

end Layers

/-! ### The chunks of a window -/

/-- Without a gap, a window appends all its chunks, and sees the end of the blob in the
short ones. -/
theorem assemble_of_no_gap (chunks : List (ℕ × Bytes)) (expected : ℕ) (data : Bytes)
    (eof : Bool) (hgap : (assemble expected data eof chunks).hasGap = false) :
    (assemble expected data eof chunks).data = data ++ (chunks.map Prod.snd).flatten ∧
      (assemble expected data eof chunks).eof
        = (eof || chunks.any fun chunk => chunk.2.length < chunkSize) := by
  induction chunks generalizing expected data eof with
  | nil => simp [assemble]
  | cons chunk rest ih =>
      obtain ⟨offset, chunk⟩ := chunk
      rw [assemble] at hgap ⊢
      split at hgap
      · simp at hgap
      · rename_i hoffset
        rw [if_neg hoffset]
        obtain ⟨hdata, heof⟩ := ih _ _ _ hgap
        simp [hdata, heof, Bool.or_assoc]

/-- When a window leaves no gap and does not see the end of the blob, its data grows by at
least a chunk. -/
theorem length_assemble {chunks : List (ℕ × Bytes)} (hne : chunks ≠ []) {expected : ℕ}
    {data : Bytes} (hgap : (assemble expected data false chunks).hasGap = false)
    (heof : (assemble expected data false chunks).eof = false) :
    data.length + chunkSize ≤ (assemble expected data false chunks).data.length := by
  obtain ⟨hdata, hshort⟩ := assemble_of_no_gap chunks expected data false hgap
  obtain ⟨chunk, rest, rfl⟩ := List.exists_cons_of_ne_nil hne
  have hfull : ¬ chunk.2.length < chunkSize := by
    intro hlt
    rw [hshort] at heof
    simp [hlt] at heof
  rw [hdata, List.length_append, List.map_cons, List.flatten_cons, List.length_append]
  omega

/-- There is one request a peer. -/
theorem length_chunkRequests {blobId : BlobId} (offset : ℕ) (l : List (PeerId × PaymentProof)) :
    (chunkRequests blobId offset l).length = l.length := by
  induction l generalizing offset with
  | nil => rfl
  | cons x rest ih => exact congrArg (· + 1) (ih _)

/-! ### One window -/

/-- What the window loop does with the chunks of a window. -/
def afterWindow (self : Resolver PeerId) (lib : Externals PeerId) (blobId : BlobId)
    (key : String) (lead : PeerId) (others : List PeerId) (fuel window : ℕ) (data : Bytes)
    (err : Option String) (chunks : List (ℕ × Bytes)) : Action PeerId L1Result :=
  if chunks.isEmpty then finishWindows lib blobId key lead data err
  else
    let assembly := assemble data.length data false (chunks.insertionSort fun a b => a.1 ≤ b.1)
    if assembly.hasGap then finishWindows lib blobId key lead assembly.data err
    else if maxTotalSize < assembly.data.length then pure none
    else if assembly.eof then finalizeL1Fetch lib blobId key lead assembly.data err
    else self.rangeWindows lib blobId key lead others fuel (window + 1) assembly.data err

/-- **What comes after a window**: no result, the verification of the data, or the next window
with at least a chunk more. -/
theorem afterWindow_cases (self : Resolver PeerId) (lib : Externals PeerId) (blobId : BlobId)
    (key : String) (lead : PeerId) (others : List PeerId) (fuel window : ℕ) (data : Bytes)
    (err : Option String) (chunks : List (ℕ × Bytes)) :
    let after := afterWindow self lib blobId key lead others fuel window data err chunks
    after = pure none ∨
      (∃ data', after = finalizeL1Fetch lib blobId key lead data' err) ∨
      ∃ data', data.length + chunkSize ≤ data'.length ∧ data'.length ≤ maxTotalSize ∧
        after = self.rangeWindows lib blobId key lead others fuel (window + 1) data' err := by
  intro after
  -- leaving the loop: without data there is no result
  have hleave : ∀ data', after = finishWindows lib blobId key lead data' err → after = pure none ∨
      ∃ data', after = finalizeL1Fetch lib blobId key lead data' err := by
    intro data' hafter
    rw [finishWindows] at hafter
    split at hafter
    · exact .inl hafter
    · exact .inr ⟨data', hafter⟩
  by_cases hempty : chunks.isEmpty
  · exact (hleave data (if_pos hempty)).imp_right .inl
  · have hsorted : chunks.insertionSort (fun a b => a.1 ≤ b.1) ≠ [] := by
      rw [Ne, ← List.length_eq_zero_iff, List.length_insertionSort, List.length_eq_zero_iff]
      simpa using hempty
    have hafter := show after = _ from if_neg hempty
    dsimp only at hafter
    split at hafter
    · exact (hleave _ hafter).imp_right .inl
    · rename_i hgap
      split at hafter
      · exact .inl hafter
      · rename_i hsize
        split at hafter
        · exact .inr (.inl ⟨_, hafter⟩)
        · rename_i heof
          exact .inr (.inr ⟨_, length_assemble hsorted (by simpa using hgap) (by simpa using heof),
            Nat.not_lt.mp hsize, hafter⟩)

/-- What holds of the three ways to go on after a window holds after it. -/
theorem meets_afterWindow {c : Contract (@Effect.Ans PeerId)} {h : Trace PeerId}
    {self : Resolver PeerId} {lib : Externals PeerId} {blobId : BlobId} {key : String}
    {lead : PeerId} {others : List PeerId} {fuel window : ℕ} {data : Bytes}
    {err : Option String} {chunks : List (ℕ × Bytes)} {Q : Trace PeerId → L1Result → Prop}
    (hnone : Q h none)
    (hfinal : ∀ data', Meets c h (finalizeL1Fetch lib blobId key lead data' err) Q)
    (hnext : ∀ data', Meets c h
      (self.rangeWindows lib blobId key lead others fuel (window + 1) data' err) Q) :
    Meets c h (afterWindow self lib blobId key lead others fuel window data err chunks) Q := by
  rcases afterWindow_cases self lib blobId key lead others fuel window data err chunks with
    hafter | ⟨data', hafter⟩ | ⟨data', -, -, hafter⟩
  · rw [hafter]
    exact hnone
  · rw [hafter]
    exact hfinal data'
  · rw [hafter]
    exact hnext data'

/-- One turn of the window loop. A window none of whose requests was sent is one without
chunks. -/
theorem rangeWindows_succ (self : Resolver PeerId) (lib : Externals PeerId) (blobId : BlobId)
    (key : String) (lead : PeerId) (others : List PeerId) (fuel window : ℕ) (data : Bytes)
    (err : Option String) :
    self.rangeWindows lib blobId key lead others (fuel + 1) window data err = (do
      let payments ← (lead :: others).mapM fun peer =>
        self.resolvePayment lib peer blobId.bytes (chunkSize * feePerByteNanos)
      let pending ← sendAll
        (chunkRequests blobId (window * (lead :: others).length * chunkSize)
          ((lead :: others).zip (payments.map Prod.fst)))
      let responses ← pending.mapM (awaitNonempty 30)
      afterWindow self lib blobId key lead others fuel window data
        (err <|> firstError payments) responses.reduceOption) := by
  conv_lhs => unfold rangeWindows
  refine congrArg _ (funext fun payments => congrArg _ (funext fun pending => ?_))
  cases pending with
  | nil => rfl
  | cons x rest => rfl

/-- The most windows the size cap allows. -/
def maxWindows : ℕ := 8193

namespace Inquiring

variable {self : Resolver PeerId} {lib : Externals PeerId}
  {c : Contract (@Effect.Ans PeerId)} {blobId : BlobId} {P : ℕ} {h : Trace PeerId}
variable (hq : Inquiring c)
include hq

/-! ### Commands -/

/-- An effect that sends nothing. -/
theorem ask_bound {e : Effect PeerId} (he : e.Benign) (hp : e.proof? = none)
    (hpay : e.pays = false) (hs : e.sends = 0) :
    Sends c P h (ask e) 0 fun _ _ => True :=
  Costs.call (hq.benign h e he hp hpay) (fun _ _ => costs_pure (n := 0) trivial) (by omega)

/-- A command without a proof is one command. -/
theorem lookup_bound {cmd : P2pCommand PeerId} (hp : cmd.proof? = none) :
    Sends c P h (sendCmd cmd) 1 fun _ _ => True :=
  Costs.call (hq.benign h _ trivial hp rfl) (fun _ _ => costs_pure (n := 0) trivial) (le_refl _)

/-- Awaiting sends nothing, and a list of peers is as long as the bound. -/
theorem awaitReply_bound {cmd : P2pCommand PeerId} {timeout : Option ℕ}
    (htime : timeout = none → cmd.answeredAtOnce) :
    Sends c P h (awaitReply cmd timeout) 0 fun h' r =>
      PeersBounded P h' → ((Effect.await cmd timeout).peers r).length ≤ P := by
  have hbenign : (Effect.await cmd timeout).Benign := by
    cases timeout with
    | none => exact htime rfl
    | some _ => trivial
  refine Costs.call (m := 0) (hq.benign h _ hbenign rfl rfl) (fun r _ => costs_pure ?_) (le_refl _)
  intro hb
  exact hb ⟨_, r⟩ (by simp)

/-- Nor does awaiting the data of a fetch. -/
theorem awaitData_bound (cmd : P2pCommand PeerId) (timeout : ℕ) :
    Sends c P h (awaitData cmd timeout) 0 fun _ _ => True := by
  refine (hq.awaitReply_bound (by simp)).bind PeersBounded.of_prefix (m := 0) ?_ (le_refl _)
  exact fun _ _ _ _ => costs_pure trivial

/-- Nor does awaiting a pending request, whose data is not empty. -/
theorem awaitNonempty_bound {α : Type} (timeout : ℕ) (pending : α × P2pCommand PeerId) :
    Sends c P h (awaitNonempty timeout pending) 0
      fun _ r => ∀ x, r = some x → x.1 = pending.1 ∧ x.2 ≠ [] := by
  refine (hq.awaitData_bound pending.2 timeout).bind PeersBounded.of_prefix (m := 0) ?_
    (le_refl _)
  intro h' reply _ _
  rcases reply with - | data
  · exact costs_pure (by simp)
  · refine Costs.ite (fun hempty => ?_) fun hnonempty => ?_
    · exact costs_pure (by simp)
    · refine costs_pure ?_
      rintro x ⟨⟩
      exact ⟨rfl, by simpa using hnonempty⟩

/-- The connected peers take one command. -/
theorem connectedPeers_bound :
    Sends c P h (@connectedPeers PeerId) 1
      fun h' l => PeersBounded P h' → l.length ≤ P := by
  refine (hq.lookup_bound rfl).bind PeersBounded.of_prefix (m := 0) ?_
    (le_refl _)
  intro h₁ sent _ _
  split
  · refine (hq.awaitReply_bound (by simp [P2pCommand.answeredAtOnce])).bind
      PeersBounded.of_prefix (m := 0) ?_ (le_refl _)
    intro h₂ reply _ hreply
    refine costs_pure fun hb => ?_
    rcases reply with - | l
    · exact Nat.zero_le _
    · exact hreply hb
  · exact costs_pure (by simp)

/-- The vault of a peer takes one command at most. -/
theorem queryVault_bound (peer : PeerId) :
    Sends c P h (queryVault peer) 1 fun _ _ => True := by
  refine (hq.ask_bound (e := .vaultAddrCacheContains peer) trivial rfl rfl rfl).bind
    PeersBounded.of_prefix ?_ (le_of_eq (Nat.zero_add 1))
  intro _ known _ _
  cases known with
  | true => exact costs_pure trivial
  | false =>
      refine (hq.lookup_bound rfl).bind PeersBounded.of_prefix (m := 0) ?_ (le_refl _)
      exact fun _ _ _ _ => hq.ask_bound trivial rfl rfl rfl

/-! ### Looking for providers -/

/-- The providers take one command. -/
theorem runFindProviders_bound :
    Sends c P h (@runFindProviders PeerId blobId) 1
      fun h' l => PeersBounded P h' → l.length ≤ P := by
  refine (hq.lookup_bound rfl).bind PeersBounded.of_prefix (m := 0) ?_ (le_refl _)
  intro h₁ sent _ _
  split
  · refine (hq.awaitReply_bound (by simp)).bind PeersBounded.of_prefix (m := 0) ?_ (le_refl _)
    intro h₂ reply _ hreply
    refine costs_pure fun hb => ?_
    rcases reply with - | l
    · exact Nat.zero_le _
    · exact hreply hb
  · exact costs_pure (by simp)

/-- Dialing takes one command a provider. -/
theorem dialProviders_bound (l : List PeerId) :
    Sends c P h (dialProviders l) l.length fun _ _ => True := by
  induction l generalizing h with
  | nil => exact costs_pure trivial
  | cons peer rest ih =>
      refine (hq.lookup_bound rfl).bind PeersBounded.of_prefix ?_
        (le_of_eq (Nat.add_comm 1 rest.length))
      intro h₁ sent _ _
      split
      · refine (hq.awaitReply_bound (by simp [P2pCommand.answeredAtOnce])).bind
          PeersBounded.of_prefix ?_ (le_of_eq (Nat.zero_add _))
        exact fun _ _ _ _ => ih
      · exact ih

/-- Asking for addresses and dialing them takes two. -/
theorem queryAndDial_bound (l : List PeerId) :
    Sends c P h (queryAndDial l) (l.length * 2) fun _ _ => True := by
  induction l generalizing h with
  | nil => exact costs_pure trivial
  | cons peer rest ih =>
      have hrest : ∀ {h : Trace PeerId},
          Sends c P h (queryAndDial rest) (1 + rest.length * 2) fun _ _ => True :=
        ih.mono PeersBounded.of_prefix (fun _ => Nat.le_add_left _ _) fun _ _ _ h => h
      have hlen : 1 + (1 + rest.length * 2) ≤ (peer :: rest).length * 2 := by
        rw [List.length_cons]
        omega
      refine (hq.lookup_bound rfl).bind PeersBounded.of_prefix ?_ hlen
      intro h₁ sent _ _
      cases sent with
      | false => exact hrest
      | true =>
          refine (hq.awaitReply_bound (by simp)).bind PeersBounded.of_prefix ?_
            (le_of_eq (Nat.zero_add _))
          intro h₂ reply _ _
          rcases reply with - | - | ⟨addr, addrs⟩
          · exact hrest
          · exact hrest
          · refine (hq.lookup_bound rfl).bind PeersBounded.of_prefix ?_ (le_refl _)
            intro h₃ dialed _ _
            cases dialed with
            | false => exact ih
            | true =>
                refine (hq.awaitReply_bound (by simp [P2pCommand.answeredAtOnce])).bind
                  PeersBounded.of_prefix ?_ (le_of_eq (Nat.zero_add _))
                exact fun _ _ _ _ => ih

section Providers

variable [DecidableEq PeerId]

/-- Every retry takes one command. -/
theorem retryFindProviders_bound (attempts : ℕ) :
    Sends c P h (self.retryFindProviders blobId attempts) attempts
      fun h' l => PeersBounded P h' → l.length ≤ P := by
  induction attempts generalizing h with
  | zero => exact costs_pure (by simp)
  | succ attempts ih =>
      refine (hq.ask_bound (e := .sleep 2000) trivial rfl rfl rfl).bind PeersBounded.of_prefix ?_
        (le_of_eq (Nat.zero_add _))
      intro h₁ _ _ _
      refine hq.runFindProviders_bound.bind PeersBounded.of_prefix ?_
        (le_of_eq (Nat.add_comm 1 attempts))
      intro h₂ found _ hfound
      refine Costs.ite (fun hempty => ?_) fun hnonempty => ?_
      · exact ih
      · exact costs_pure fun hb => (List.length_filter_le _ _).trans (hfound hb)

/-- So does every poll. -/
theorem pollConnected_bound (dhtPeers : List PeerId) (iterations : ℕ) :
    Sends c P h (pollConnected dhtPeers iterations) iterations fun _ _ => True := by
  induction iterations generalizing h with
  | zero => exact costs_pure trivial
  | succ iterations ih =>
      refine (hq.ask_bound (e := .sleep 100) trivial rfl rfl rfl).bind PeersBounded.of_prefix ?_
        (le_of_eq (Nat.zero_add _))
      intro h₁ _ _ _
      refine (hq.lookup_bound rfl).bind PeersBounded.of_prefix ?_
        (le_of_eq (Nat.add_comm 1 iterations))
      intro h₂ sent _ _
      cases sent with
      | false => exact costs_pure trivial
      | true =>
          refine (hq.awaitReply_bound (by simp [P2pCommand.answeredAtOnce])).bind
            PeersBounded.of_prefix ?_ (le_of_eq (Nat.zero_add _))
          intro h₃ reply _ _
          dsimp only
          split
          · exact costs_pure trivial
          · exact ih

end Providers

end Inquiring

namespace Quiet

variable {self : Resolver PeerId} {lib : Externals PeerId}
  {c : Contract (@Effect.Ans PeerId)} {blobId : BlobId} {key : String} {P : ℕ}
  {h : Trace PeerId}
variable (hq : Quiet self lib c)
include hq

omit hq in
/-- A contract that relies on more and promises less allows as much. -/
theorem weaken {c' : Contract (@Effect.Ans PeerId)} (hq : Quiet self lib c)
    (hrely : ∀ h e r, c'.rely h e r → c.rely h e r)
    (hguar : ∀ h e, c.guarantee h e → c'.guarantee h e) (hpanic : c.mayPanic → c'.mayPanic) :
    Quiet self lib c' where
  benign h e he hp hpay := hguar h e (hq.benign h e he hp hpay)
  sends h cmd := hguar h _ (hq.sends h cmd)
  payments h e hpay := hguar h e (hq.payments h e hpay)
  pays h recipient blobHash amount o wallet settlement hw hs ho hnone :=
    hpanic (hq.pays h recipient blobHash amount o wallet settlement hw hs (hrely h _ o ho) hnone)

/-! ### Commands -/

/-- Sending a command is one command. -/
theorem sendCmd_bound (cmd : P2pCommand PeerId) :
    Sends c P h (sendCmd cmd) 1 fun _ _ => True :=
  Costs.call (hq.sends h cmd) (fun _ _ => costs_pure (n := 0) trivial) (le_refl _)

/-- So is a fetch. -/
theorem fetch_bound (cmd : P2pCommand PeerId) :
    Sends c P h (fetch cmd) 1 fun _ _ => True := by
  refine (hq.sendCmd_bound cmd).bind PeersBounded.of_prefix (m := 0) ?_ (le_refl _)
  intro h' sent _ _
  split
  · exact hq.awaitData_bound cmd 30
  · exact costs_pure trivial

/-- Sending a list of commands keeps a sublist of it. -/
theorem sendAll_bound {α : Type} (l : List (α × P2pCommand PeerId)) :
    Sends c P h (sendAll l) l.length fun _ pending => pending.Sublist l := by
  induction l generalizing h with
  | nil => exact costs_pure (List.Sublist.refl _)
  | cons x rest ih =>
      obtain ⟨x, cmd⟩ := x
      rw [List.length_cons, Nat.add_comm]
      refine (hq.sendCmd_bound cmd).bind PeersBounded.of_prefix ?_ (le_refl _)
      intro h₁ sent _ _
      refine (ih (h := h₁)).bind PeersBounded.of_prefix (m := 0) ?_ (le_refl _)
      intro h₂ later _ hsub
      cases sent with
      | true => exact costs_pure (hsub.cons_cons _)
      | false => exact costs_pure (hsub.cons _)

/-! ### Payments -/

/-- The effects of a payment send nothing. -/
theorem pay_bound {e : Effect PeerId} (hpay : e.pays = true) (hs : e.sends = 0) :
    Sends c P h (ask e) 0 fun _ _ => True :=
  Costs.call (hq.payments h e hpay) (fun _ _ => costs_pure (n := 0) trivial) (by omega)

/-- Nor does a synthetic payment. -/
theorem syntheticPay_bound (recipient : Address) (blobHash : Bytes32) (amount : ℕ) :
    Sends c P h (syntheticPay lib recipient blobHash amount) 0 fun _ _ => True := by
  refine (hq.pay_bound (e := .paymentCounterFetchAdd) rfl rfl).bind PeersBounded.of_prefix
    (m := 0) ?_ (le_refl _)
  exact fun _ _ _ _ => costs_pure trivial

/-- Nor does a payment of the wallet. -/
theorem payWal_bound {wallet : ZingWallet} (hw : self.wallet = some wallet)
    (recipient : Address) (blobHash : Bytes32) (amount : ℕ) :
    Sends c P h (wallet.payWal lib recipient blobHash amount) 0 fun _ _ => True := by
  rw [ZingWallet.payWal]
  cases hs : wallet.settlement with
  | none => exact hq.syntheticPay_bound recipient blobHash amount
  | some settlement =>
      refine Costs.call (m := 0) (hq.payments h _ rfl) (fun o ho => ?_) (le_refl _)
      show Sends c P _ (finishPayment lib recipient blobHash amount
        (wallet.tryOnchainPay lib settlement recipient blobHash amount o)) 0 _
      cases hpaid : wallet.tryOnchainPay lib settlement recipient blobHash amount o with
      | none => exact costs_panic (hq.pays h _ _ _ o wallet settlement hw hs ho hpaid)
      | some r =>
          cases r with
          | ok d =>
              refine (hq.pay_bound (e := .paymentCounterFetchAdd) rfl rfl).bind
                PeersBounded.of_prefix (m := 0) ?_ (le_refl _)
              exact fun _ _ _ _ => costs_pure trivial
          | error e => exact hq.syntheticPay_bound recipient blobHash amount

/-- Nor does a payment to an address. -/
theorem payAddress_bound {wallet : ZingWallet} (hw : self.wallet = some wallet)
    (invalid : String) (addr blobHash : Bytes32) (amount : ℕ) :
    Sends c P h (payAddress lib wallet invalid addr blobHash amount) 0 fun _ _ => True := by
  rw [payAddress]
  cases lib.addressFromBytes addr with
  | error e => exact costs_pure trivial
  | ok recipient =>
      refine (hq.payWal_bound hw recipient blobHash amount).bind PeersBounded.of_prefix
        (m := 0) ?_ (le_refl _)
      intro _ paid _ _
      cases paid <;> exact costs_pure trivial

/-- A payment sends at most two commands. -/
theorem resolvePayment_bound (peer : PeerId) (blobHash : Bytes32) (amount : ℕ) :
    Sends c P h (self.resolvePayment lib peer blobHash amount) 2 fun _ _ => True := by
  rw [resolvePayment]
  cases hw : self.wallet with
  | none => exact costs_pure trivial
  | some wallet =>
      refine (hq.pay_bound (e := .suiAddrCacheGet peer) rfl rfl).bind
        PeersBounded.of_prefix ?_ (le_of_eq (Nat.zero_add 2))
      intro h₁ cached _ _
      rcases cached with - | - | addr
      · refine (hq.sendCmd_bound _).bind PeersBounded.of_prefix (m := 1) ?_ (le_refl _)
        intro h₂ sent _ _
        cases sent with
        | false =>
            refine (hq.ask_bound (e := .suiAddrCacheInsert peer none) trivial rfl rfl rfl).bind
              PeersBounded.of_prefix (m := 0) ?_ (Nat.zero_le _)
            exact fun _ _ _ _ => costs_pure trivial
        | true =>
            refine (hq.awaitReply_bound (by simp)).bind PeersBounded.of_prefix ?_
              (le_of_eq (Nat.zero_add 1))
            intro h₃ reply _ _
            refine (hq.ask_bound (e := .suiAddrCacheInsert peer (Option.join reply)) trivial
              rfl rfl rfl).bind PeersBounded.of_prefix ?_ (le_of_eq (Nat.zero_add 1))
            intro h₄ _ _ _
            refine (hq.queryVault_bound peer).bind PeersBounded.of_prefix (m := 0) ?_ (le_refl _)
            intro h₅ _ _ _
            rcases hjoin : Option.join reply with - | addr
            · exact costs_pure trivial
            · exact hq.payAddress_bound hw _ addr blobHash amount
      · exact costs_pure trivial
      · exact (hq.payAddress_bound hw _ addr blobHash amount).mono PeersBounded.of_prefix
          (fun _ => Nat.zero_le _) fun _ _ _ h => h

/-- Paying a peer and fetching from it sends at most three commands, whatever it answers. -/
theorem payAndFetch_bound {α : Type} {Q : Trace PeerId → α → Prop} {n t : ℕ}
    {cmd : Bytes32 × Option String → P2pCommand PeerId}
    {k : Bytes32 × Option String → Option Bytes → Action PeerId α} (peer : PeerId)
    (blobHash : Bytes32) (amount : ℕ)
    (hk : ∀ h' payment reply, Sends c P h' (k payment reply) n Q) (ht : 3 + n ≤ t) :
    Sends c P h (self.resolvePayment lib peer blobHash amount >>= fun payment =>
      fetch (cmd payment) >>= fun reply => k payment reply) t Q := by
  have hsum : 2 + (1 + n) ≤ t := by omega
  refine (hq.resolvePayment_bound peer blobHash amount).bind PeersBounded.of_prefix ?_ hsum
  intro h₁ payment _ _
  refine (hq.fetch_bound (cmd payment)).bind PeersBounded.of_prefix ?_ (le_refl _)
  exact fun h₂ reply _ _ => hk h₂ payment reply

/-- A payment may be made under the contract. -/
theorem resolvePayment_meets (h : Trace PeerId) (peer : PeerId) (blobHash : Bytes32)
    (amount : ℕ) :
    Meets c h (self.resolvePayment lib peer blobHash amount) fun _ _ => True :=
  (hq.resolvePayment_bound (P := 0) peer blobHash amount).meets

/-- The peers of a list may be paid under the contract, each once. -/
theorem payAll_meets (peers : List PeerId) (blobHash : Bytes32) (amount : ℕ) :
    Meets c h (peers.mapM fun peer => self.resolvePayment lib peer blobHash amount)
      fun _ payments => payments.length = peers.length :=
  (meets_mapM_of_forall (P := fun _ _ => True)
    fun peer _ h' => hq.resolvePayment_meets h' peer blobHash amount).mono
      fun _ _ _ hpayments => hpayments.length_eq.symm

/-- The replies to some requests may be awaited under the contract. -/
theorem awaitAll_meets {γ : Type} (timeout : ℕ) (pending : List (γ × P2pCommand PeerId)) :
    Meets c h (pending.mapM (awaitNonempty timeout)) fun _ _ => True :=
  (meets_mapM_of_forall fun x _ _ => (hq.awaitNonempty_bound (P := 0) timeout x).meets).mono
    fun _ _ _ _ => trivial

/-! ### The loops over chunks and windows -/

/-- The chunk loop ends at `maxChunks`. -/
theorem rangeChunks_bound (peer : PeerId) {fuel offset : ℕ} (data : Bytes)
    (err : Option String) (hle : offset / rangeChunk ≤ maxChunks)
    (hfuel : maxChunks < offset / rangeChunk + fuel) :
    Sends c P h (self.rangeChunks lib blobId peer fuel offset data err) (fuel * 3)
      fun _ _ => True := by
  induction fuel generalizing h offset data err with
  | zero => omega
  | succ fuel ih =>
      rw [rangeChunks]
      split
      · exact costs_pure trivial
      · rename_i hlt
        have hnext : (offset + rangeChunk) / rangeChunk = offset / rangeChunk + 1 :=
          Nat.add_div_right offset (by decide)
        refine hq.payAndFetch_bound (n := fuel * 3) peer _ _ (fun h₂ payment reply => ?_)
          (by omega)
        rcases reply with - | nextChunk
        · exact costs_pure trivial
        · refine Costs.ite (fun hempty => ?_) fun hnonempty => ?_
          · exact costs_pure trivial
          · split
            · exact costs_pure trivial
            · exact ih _ _ (by omega) (by omega)

/-- **The window loop ends**: each window that does not end it brings at least a chunk of
data, so it ends within `maxWindows` windows, each of which pays and asks every working
peer once. -/
theorem rangeWindows_bound {Good : L1Result → Prop} {lead : PeerId}
    (hfinal : ∀ h data err,
      Meets c h (finalizeL1Fetch lib blobId key lead data err) fun _ r => Good r)
    (hnone : Good none) (others : List PeerId) {fuel : ℕ} (window : ℕ) (data : Bytes)
    (err : Option String) (hfuel : maxWindows ≤ window + fuel)
    (hgrown : window * chunkSize ≤ data.length) (hcap : data.length ≤ maxTotalSize) :
    Sends c P h (self.rangeWindows lib blobId key lead others fuel window data err)
      ((maxWindows - window) * (3 * (lead :: others).length)) fun _ r => Good r := by
  have hwindow : window < maxWindows := by
    have : window * chunkSize ≤ maxTotalSize := hgrown.trans hcap
    simp only [chunkSize, maxTotalSize, maxWindows] at *
    omega
  induction fuel generalizing h window data err with
  | zero => omega
  | succ fuel ih =>
      set n := (lead :: others).length with hn
      have hsplit : n * 2 + (n + (maxWindows - (window + 1)) * (3 * n))
          ≤ (maxWindows - window) * (3 * n) := by
        have : maxWindows - window = maxWindows - (window + 1) + 1 := by omega
        rw [this, Nat.add_mul]
        omega
      rw [rangeWindows_succ]
      refine (costs_mapM PeersBounded.of_prefix (R := fun _ _ => True)
        fun h' peer _ => hq.resolvePayment_bound peer _ _).bind PeersBounded.of_prefix ?_ hsplit
      intro h₁ payments _ hpayments
      have hzip : (chunkRequests blobId (window * n * chunkSize)
          ((lead :: others).zip (payments.map Prod.fst))).length ≤ n := by
        rw [length_chunkRequests, List.length_zip]
        exact Nat.min_le_left _ _
      refine ((hq.sendAll_bound _).mono PeersBounded.of_prefix (fun _ => hzip)
        fun _ _ _ h => h).bind PeersBounded.of_prefix ?_ (le_refl _)
      intro h₂ fetches _ _
      refine (costs_mapM PeersBounded.of_prefix (R := fun _ _ => True) fun h' x _ =>
        (hq.awaitNonempty_bound 30 x).mono PeersBounded.of_prefix (fun _ => le_refl _)
          fun _ _ _ _ => trivial).bind PeersBounded.of_prefix
            (m := (maxWindows - (window + 1)) * (3 * n)) ?_ (by simp)
      intro h₃ responses _ _
      rcases afterWindow_cases self lib blobId key lead others fuel window data
          (err <|> firstError payments) responses.reduceOption with
        hafter | ⟨data', hafter⟩ | ⟨data', hgrow, hcap', hafter⟩
      · rw [hafter]
        exact costs_pure hnone
      · rw [hafter]
        exact sends_finalizeL1Fetch P _ (hfinal _ _ _)
      · have hgrown' : (window + 1) * chunkSize ≤ data'.length := by
          rw [Nat.add_mul]
          omega
        have hwindow' : window + 1 < maxWindows := by
          have := hgrown'.trans hcap'
          simp only [chunkSize, maxTotalSize, maxWindows] at this ⊢
          omega
        rw [hafter]
        exact ih _ _ _ (by omega) hgrown' hcap' hwindow'

section Providers

variable [DecidableEq PeerId]

/-- The DHT strategy, from what a whole blob from any peer ends it with. -/
theorem tryProviders_meets {Q : Trace PeerId → L1Result → Prop} (hnone : ∀ h, Q h none)
    (hfetch : ∀ h peer proof err, Meets c h (fetch (.fetchBlob peer blobId.bytes proof))
      fun h' reply => ∀ data, reply = some data →
        Meets c h' (finalizeL1Fetch lib blobId key peer data err) Q) :
    Meets c h (self.tryProviders lib blobId key) Q := by
  have hproviders : ∀ h l, Meets c h (self.fetchFromProviders lib blobId key l) Q := by
    intro h l
    refine (hq.dialProviders_bound (P := 0) l).meets.bind fun h₁ _ _ _ => ?_
    refine (hq.queryAndDial_bound (P := 0) l).meets.bind fun h₂ _ _ _ => ?_
    refine (hq.pollConnected_bound (P := 0) l _).meets.bind fun h₃ polled _ _ => ?_
    rcases polled with - | peer
    · exact hnone h₃
    · refine (hq.resolvePayment_meets h₃ peer _ _).bind fun h₄ payment _ _ => ?_
      refine (hfetch h₄ peer _ payment.2).bind fun h₅ reply _ hreply => ?_
      rcases reply with - | data
      · exact hnone h₅
      · exact hreply data rfl
  refine (hq.runFindProviders_bound (P := 0)).meets.bind fun h₁ found _ _ => ?_
  refine Meets.ite (fun hempty => ?_) fun hnonempty => ?_
  · refine (hq.retryFindProviders_bound (P := 0) 3).meets.bind fun h₂ retried _ _ => ?_
    refine Meets.ite (fun hempty => ?_) fun hnonempty => ?_
    · exact hnone h₂
    · exact hproviders h₂ retried
  · exact hproviders h₁ _

end Providers

/-! ### Probing -/

/-- The parallel strategy, from what its windows end with. -/
theorem tryDirectPeersRangeParallel_meets {Q : Trace PeerId → L1Result → Prop}
    (hnone : ∀ h, Q h none)
    (hwindows : ∀ h lead others err,
      Meets c h (self.rangeWindows lib blobId key lead others windowFuel 0 [] err) Q) :
    Meets c h (self.tryDirectPeersRangeParallel lib blobId key) Q := by
  refine (hq.connectedPeers_bound (P := 0)).meets.bind fun h₁ connected _ _ => ?_
  refine Meets.ite (fun hempty => ?_) fun hnonempty => ?_
  · exact hnone h₁
  refine (hq.payAll_meets (connected.take maxParallel) _ _).bind fun h₂ payments _ _ => ?_
  refine (hq.sendAll_bound (P := 0) _).meets.bind fun h₃ probes _ _ => ?_
  refine (hq.awaitAll_meets 5 probes).bind fun h₄ answers _ _ => ?_
  rcases answers.reduceOption.map Prod.fst with - | ⟨lead, others⟩
  · exact hnone h₄
  · exact hwindows h₄ lead others _

end Quiet

namespace Tame

variable {self : Resolver PeerId} {lib : Externals PeerId}
  {c : Contract (@Effect.Ans PeerId)} {blobId : BlobId} {key : String}
  {Good : L1Result → Prop} {P : ℕ} {h : Trace PeerId}
variable (ht : Tame self lib c blobId key Good)
include ht

omit ht in
/-- A contract that relies on more and promises less allows as much. -/
theorem weaken {c' : Contract (@Effect.Ans PeerId)} (ht : Tame self lib c blobId key Good)
    (hrely : ∀ h e r, c'.rely h e r → c.rely h e r)
    (hguar : ∀ h e, c.guarantee h e → c'.guarantee h e) (hpanic : c.mayPanic → c'.mayPanic) :
    Tame self lib c' blobId key Good where
  toQuiet := ht.toQuiet.weaken hrely hguar hpanic
  finalize h peer data err := (ht.finalize h peer data err).weaken hrely hguar hpanic
  nothing := ht.nothing

/-! ### The strategies -/

/-- A whole blob takes three commands a peer. -/
theorem directPeersLoop_bound (l : List PeerId) :
    Sends c P h (self.directPeersLoop lib blobId key l) (l.length * 3) fun _ r => Good r := by
  induction l generalizing h with
  | nil => exact costs_pure ht.nothing
  | cons peer rest ih =>
      have hlen : 3 + rest.length * 3 ≤ (peer :: rest).length * 3 := by
        rw [List.length_cons]
        omega
      refine ht.payAndFetch_bound peer _ _ (fun h₂ payment reply => ?_) hlen
      rcases reply with - | data
      · exact ih
      · exact sends_finalizeL1Fetch P _ (ht.finalize h₂ peer data payment.2)

/-- Sequential ranges take three commands a peer and three a chunk. -/
theorem directPeersRangeLoop_bound (l : List PeerId) :
    Sends c P h (self.directPeersRangeLoop lib blobId key l) (l.length * 3 + maxChunks * 3)
      fun _ r => Good r := by
  have hfin : ∀ {n : ℕ} {h : Trace PeerId} (peer : PeerId) (data : Bytes) (err : Option String),
      Sends c P h (finalizeL1Fetch lib blobId key peer data err) n fun _ r => Good r :=
    fun peer data err => sends_finalizeL1Fetch P _ (ht.finalize _ peer data err)
  induction l generalizing h with
  | nil => exact costs_pure ht.nothing
  | cons peer rest ih =>
      have hlen : 3 + (rest.length * 3 + maxChunks * 3)
          ≤ (peer :: rest).length * 3 + maxChunks * 3 := by
        rw [List.length_cons]
        omega
      refine ht.payAndFetch_bound peer _ _ (fun h₂ payment reply => ?_) hlen
      rcases reply with - | chunk
      · exact ih
      · refine Costs.ite (fun hshort => ?_) fun hfull => ?_
        · exact hfin peer chunk payment.2
        · refine (ht.rangeChunks_bound peer chunk payment.2 (by decide) (by decide)).bind
            PeersBounded.of_prefix (m := 0) ?_ (by omega)
          intro h₃ assembled _ _
          rcases assembled with - | ⟨data, err⟩
          · exact costs_pure ht.nothing
          · exact hfin peer data err

/-- A loop over the connected peers. -/
theorem connectedPeers_bind_bound {loop : List PeerId → Action PeerId L1Result} {n m k : ℕ}
    (hloop : ∀ h l, Sends c P h (loop l) (l.length * n + m) fun _ r => Good r)
    (hk : 1 + (P * n + m) ≤ k) :
    Sends c P h (connectedPeers >>= loop) k fun _ r => Good r := by
  refine ht.connectedPeers_bound.bind PeersBounded.of_prefix ?_ hk
  intro h₁ l _ hl
  exact (hloop h₁ l).mono PeersBounded.of_prefix
    (fun hb => Nat.add_le_add_right (Nat.mul_le_mul_right n (hl hb)) m) fun _ _ _ h => h

/-- The sequential strategy. -/
theorem tryDirectPeersRange_bound :
    Sends c P h (self.tryDirectPeersRange lib blobId key) (1 + (P * 3 + maxChunks * 3))
      fun _ r => Good r :=
  ht.connectedPeers_bind_bound (fun _ l => ht.directPeersRangeLoop_bound l) (le_refl _)

/-- The strategy of whole blobs. -/
theorem tryDirectPeers_bound :
    Sends c P h (self.tryDirectPeers lib blobId key) (1 + P * 3) fun _ r => Good r :=
  ht.connectedPeers_bind_bound (n := 3) (m := 0) (fun _ l => ht.directPeersLoop_bound l)
    (le_refl _)

/-- The commands of the parallel strategy. -/
def parallelCommands : ℕ := 1 + (maxParallel * 2 + (maxParallel + maxWindows * (3 * maxParallel)))

/-- The parallel strategy, whose windows are bounded by their number. -/
theorem tryDirectPeersRangeParallel_bound :
    Sends c P h (self.tryDirectPeersRangeParallel lib blobId key) parallelCommands
      fun _ r => Good r := by
  refine ht.connectedPeers_bound.bind PeersBounded.of_prefix ?_ (le_refl _)
  intro h₁ connected _ _
  split
  · exact costs_pure ht.nothing
  have htake : (connected.take maxParallel).length ≤ maxParallel := List.length_take_le _ _
  refine ((costs_mapM PeersBounded.of_prefix (R := fun _ _ => True)
    fun h' peer _ => ht.resolvePayment_bound peer _ _).mono PeersBounded.of_prefix
      (fun _ => Nat.mul_le_mul_right 2 htake) fun _ _ _ h => h).bind PeersBounded.of_prefix ?_
        (le_refl _)
  intro h₂ payments _ _
  have hlen : (probeRequests blobId
      ((connected.take maxParallel).zip (payments.map Prod.fst))).length ≤ maxParallel := by
    rw [probeRequests, List.length_map, List.length_zip]
    exact (Nat.min_le_left _ _).trans htake
  refine ((ht.sendAll_bound _).mono PeersBounded.of_prefix (fun _ => hlen)
    fun _ _ _ h => h).bind PeersBounded.of_prefix ?_ (le_refl _)
  intro h₃ probes _ hprobes
  refine (costs_mapM PeersBounded.of_prefix (R := fun _ _ => True) fun h' x _ =>
    (ht.awaitNonempty_bound 5 x).mono PeersBounded.of_prefix (fun _ => le_refl _)
      fun _ _ _ _ => trivial).bind PeersBounded.of_prefix
        (m := maxWindows * (3 * maxParallel)) ?_ (by simp)
  intro h₄ answers _ hanswers
  have hworking : (answers.reduceOption.map Prod.fst).length ≤ maxParallel := by
    rw [List.length_map]
    calc answers.reduceOption.length ≤ answers.length := List.reduceOption_length_le answers
      _ = probes.length := hanswers.length_eq.symm
      _ ≤ _ := hprobes.length_le
      _ ≤ maxParallel := hlen
  rcases hcons : answers.reduceOption.map Prod.fst with - | ⟨lead, others⟩
  · exact costs_pure ht.nothing
  · rw [hcons] at hworking
    exact (ht.rangeWindows_bound (fun h => ht.finalize h lead) ht.nothing others 0 [] _
      (by decide) (by simp) (Nat.zero_le _)).mono PeersBounded.of_prefix
      (fun _ => Nat.mul_le_mul (Nat.sub_le _ _) (Nat.mul_le_mul_left 3 hworking))
      fun _ _ _ h => h

omit ht in
/-- Two strategies add up. -/
theorem orElse_bound {first next : Action PeerId L1Result} {n m : ℕ}
    (hfirst : ∀ h, Sends c P h first n fun _ r => Good r)
    (hnext : ∀ h, Sends c P h next m fun _ r => Good r) :
    Sends c P h (orElse first next) (n + m) fun _ r => Good r := by
  refine (hfirst h).bind PeersBounded.of_prefix ?_ (le_refl _)
  intro h₁ result _ hgood
  rcases result with - | result
  · exact hnext h₁
  · exact costs_pure hgood

section Providers

variable [DecidableEq PeerId]

/-- The commands after some providers are known. -/
theorem fetchFromProviders_bound (dhtPeers : List PeerId) :
    Sends c P h (self.fetchFromProviders lib blobId key dhtPeers)
      (dhtPeers.length * 3 + (maxPollIterations + 3)) fun _ r => Good r := by
  have hlen : dhtPeers.length + (dhtPeers.length * 2 + (maxPollIterations + 3))
      ≤ dhtPeers.length * 3 + (maxPollIterations + 3) := by omega
  refine (ht.dialProviders_bound dhtPeers).bind PeersBounded.of_prefix ?_ hlen
  intro h₁ _ _ _
  refine (ht.queryAndDial_bound dhtPeers).bind PeersBounded.of_prefix ?_ (le_refl _)
  intro h₂ _ _ _
  refine (ht.pollConnected_bound dhtPeers _).bind PeersBounded.of_prefix ?_ (le_refl _)
  intro h₃ polled _ _
  rcases polled with - | peer
  · exact costs_pure ht.nothing
  · refine ht.payAndFetch_bound (n := 0) peer _ _ (fun h₅ payment reply => ?_) (le_refl _)
    rcases reply with - | data
    · exact costs_pure ht.nothing
    · exact sends_finalizeL1Fetch P 0 (ht.finalize h₅ peer data payment.2)

/-- The commands of the DHT strategy, for providers lists of at most `P` peers. -/
def providerCommands (P : ℕ) : ℕ := 1 + (3 + (P * 3 + (maxPollIterations + 3)))

/-- The DHT part. -/
theorem tryProviders_bound :
    Sends c P h (self.tryProviders lib blobId key) (providerCommands P) fun _ r => Good r := by
  have hfetch : ∀ {h : Trace PeerId} {n : ℕ} (l : List PeerId), (PeersBounded P h → l.length ≤ P) →
      P * 3 + (maxPollIterations + 3) ≤ n →
        Sends c P h (self.fetchFromProviders lib blobId key l) n fun _ r => Good r := by
    intro h n l hl hn
    refine (ht.fetchFromProviders_bound l).mono PeersBounded.of_prefix (fun hb => ?_)
      fun _ _ _ h => h
    have := hl hb
    omega
  refine ht.runFindProviders_bound.bind PeersBounded.of_prefix ?_ (le_refl _)
  intro h₁ found _ hfound
  refine Costs.ite (fun hempty => ?_) fun hnonempty => ?_
  · refine (ht.retryFindProviders_bound 3).bind PeersBounded.of_prefix ?_ (le_refl _)
    intro h₂ retried _ hretried
    refine Costs.ite (fun hempty => ?_) fun hnonempty => ?_
    · exact costs_pure ht.nothing
    · exact hfetch retried hretried (le_refl _)
  · exact hfetch _ (fun hb => (List.length_filter_le _ _).trans (hfound hb)) (by omega)

/-- The commands of all four strategies, for peer lists of at most `P` peers. -/
def l1Commands (P : ℕ) : ℕ :=
  parallelCommands + (1 + (P * 3 + maxChunks * 3) + (1 + P * 3 + providerCommands P))

/-- **The four strategies end** after at most `l1Commands P` commands, in a run whose peer
lists have at most `P` peers, with a result that satisfies `Good`. -/
theorem resolveFromL1_bound :
    Sends c P h (self.resolveFromL1 lib blobId key) (l1Commands P) fun _ r => Good r := by
  refine orElse_bound (fun h => ht.tryDirectPeersRangeParallel_bound) fun h => ?_
  refine orElse_bound (fun h => ht.tryDirectPeersRange_bound) fun h => ?_
  exact orElse_bound (fun h => ht.tryDirectPeers_bound) fun h => ht.tryProviders_bound

end Providers

end Tame

end ZingCdn
