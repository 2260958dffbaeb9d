import ZingCdn.RangeAssembly

/-!
# Whom a Resolve Turns to, and What It Pays Them

Two things hold of every effect of a resolve, whatever the environment answers. The peers
it pays and asks for data are those of its last list of connected peers, and none of them
once it has reported on a peer. And every fetch goes out with a proof of a payment of the
resolver's own price for it: `READ_FEE_WAL_NANOS` for a whole blob, `FEE_PER_BYTE_NANOS`
for each byte of a range.

Both are read off the history: `live` is the list a resolve works from, `payee` the peer of
the payment in progress, and `Funded` says which payment a proof stands for. They make up
one contract, `steeredContract`, that every strategy meets.

## Main results

* `resolve_steered`: every effect of a resolve is `Steered`.
-/

open Program Program.Prog

namespace ZingCdn

open Resolver

variable {PeerId : Type}

/-! ### The list of peers and the payment in progress -/

/-- The connected peers in a reply, when it lists them. -/
def P2pCommand.listing? : (cmd : P2pCommand PeerId) → Option cmd.Reply → Option (List PeerId)
  | .getConnectedPeers, reply => reply
  | _, _ => none

/-- The list a resolve works from, after one more event. -/
def Effect.relist (listed : List PeerId) : (e : Effect PeerId) → e.Ans → List PeerId
  | .await cmd _, reply => (cmd.listing? reply).getD listed
  | .recordCorruption _, _ => []
  | .recordSuccess _, _ => []
  | _, _ => listed

/-- The list a resolve works from: the connected peers as last listed, and nobody once a
report has been made. -/
def live (h : Trace PeerId) : List PeerId :=
  h.foldl (fun listed ev => ev.1.relist listed ev.2) []

/-- The peer of the payment in progress, after one more effect. -/
def Effect.payee (last : Option PeerId) : Effect PeerId → Option PeerId
  | .suiAddrCacheGet peer => some peer
  | _ => last

/-- The peer of the payment in progress: the last one whose address was looked up. -/
def payee (h : Trace PeerId) : Option PeerId :=
  h.foldl (fun last ev => ev.1.payee last) none

/-- The peer that an effect pays or asks for data. -/
def contact? (h : Trace PeerId) : Effect PeerId → Option PeerId
  | .send (.fetchBlob peer ..) | .send (.fetchRange peer ..) | .suiAddrCacheGet peer => some peer
  | .onchainPay .. | .paymentCounterFetchAdd => payee h
  | _ => none

/-- What is live after one event more. -/
@[simp] theorem live_concat (h : Trace PeerId) (ev : Event (@Effect.Ans PeerId)) :
    live (h ++ [ev]) = ev.1.relist (live h) ev.2 := by
  rw [live, List.foldl_append]
  rfl

/-- Who is paid after one event more. -/
@[simp] theorem payee_concat (h : Trace PeerId) (ev : Event (@Effect.Ans PeerId)) :
    payee (h ++ [ev]) = ev.1.payee (payee h) := by
  rw [payee, List.foldl_append]
  rfl

/-- The effects that neither list the connected peers nor report on a peer. -/
def Effect.keepsList : Effect PeerId → Bool
  | .await .getConnectedPeers _ | .recordCorruption _ | .recordSuccess _ => false
  | _ => true

/-- Such an effect leaves the list alone. -/
theorem live_kept {h : Trace PeerId} {e : Effect PeerId} {r : e.Ans} {l : List PeerId}
    (hlist : live h = l) (he : e.keepsList = true) : live (h ++ [⟨e, r⟩]) = l := by
  rw [live_concat, ← hlist]
  cases e with
  | await cmd timeout => cases cmd <;> first | rfl | cases he
  | recordCorruption | recordSuccess => cases he
  | _ => rfl

/-- An effect that is no address lookup leaves the payment in progress alone. -/
theorem payee_kept {h : Trace PeerId} {e : Effect PeerId} {r : e.Ans} {last : Option PeerId}
    (hpayee : payee h = last) (he : e.payee last = last) : payee (h ++ [⟨e, r⟩]) = last := by
  rw [payee_concat, hpayee, he]

/-! ### What a fetch is paid with -/

/-- A payment that a fetch refers to: for which blob, how much, and the proof. -/
structure Invoice where
  blobHash : Bytes32
  amount : ℕ
  proof : PaymentProof
deriving DecidableEq

/-- The payment the resolver makes for a fetch: a fixed price for a whole blob, and a price
for each byte of a range. -/
def P2pCommand.invoice? : P2pCommand PeerId → Option Invoice
  | .fetchBlob _ blobId proof => some ⟨blobId, readFeeWalNanos, proof⟩
  | .fetchRange _ blobId _ length proof => some ⟨blobId, length * feePerByteNanos, proof⟩
  | _ => none

/-- A range is no longer than the longest one the resolver reads. -/
def P2pCommand.Short : P2pCommand PeerId → Prop
  | .fetchRange _ _ _ length _ => length ≤ rangeChunk
  | _ => True

variable (self : Resolver PeerId) (lib : Externals PeerId)

/-- The proof of an invoice stands for a payment of its amount for its blob: none at all,
one executed on chain, or a synthetic one. -/
inductive Funded (h : Trace PeerId) : Invoice → Prop
  | unpaid (blobHash : Bytes32) (amount : ℕ) : Funded h ⟨blobHash, amount, zeroBytes32⟩
  | onchain {wallet : ZingWallet} {settlement : SettlementConfig} {recipient : Address}
      {blobHash : Bytes32} {amount : ℕ} {d : PaymentProof} (o : OnchainOutcome) :
      self.wallet = some wallet → wallet.settlement = some settlement →
      ⟨.onchainPay recipient blobHash amount, o⟩ ∈ h →
      wallet.tryOnchainPay lib settlement recipient blobHash amount o = some (.ok d) →
        Funded h ⟨blobHash, amount, d⟩
  | synthetic {wallet : ZingWallet} (recipient : Address) (blobHash : Bytes32) (amount c : ℕ) :
      self.wallet = some wallet → ⟨.paymentCounterFetchAdd, c⟩ ∈ h →
        Funded h ⟨blobHash, amount, syntheticProof lib recipient blobHash amount (c + 1)⟩

/-- An effect turns to a peer of the list only, and a fetch is funded and of a short range. -/
structure Steered (node : Resolver PeerId) (lib : Externals PeerId) (h : Trace PeerId)
    (e : Effect PeerId) : Prop where
  contact : ∀ peer, contact? h e = some peer → peer ∈ live h
  funded : ∀ cmd invoice, e = .send cmd → cmd.invoice? = some invoice →
    Funded node lib h invoice
  short : ∀ cmd, e = .send cmd → cmd.Short

/-- The contract to be steered, whatever the environment does. -/
def steeredContract : Contract (@Effect.Ans PeerId) where
  rely _ _ _ := True
  guarantee := Steered self lib
  mayPanic := True

variable {self lib} {blobId : BlobId} {key : String} {h h' : Trace PeerId}

/-- A fetch that is funded stays funded. -/
theorem Funded.mono {invoice : Invoice} (hpre : h <+: h') (hf : Funded self lib h invoice) :
    Funded self lib h' invoice := by
  cases hf with
  | unpaid => exact .unpaid _ _
  | onchain o hw hs hmem htry => exact .onchain o hw hs (hpre.subset hmem) htry
  | synthetic recipient _ _ c hw hmem => exact .synthetic recipient _ _ c hw (hpre.subset hmem)

/-- An effect that turns to nobody and is no fetch. -/
theorem Steered.of_none {e : Effect PeerId} (hcontact : contact? h e = none)
    (hcmd : ∀ cmd, e = .send cmd → cmd.invoice? = none) : Steered self lib h e where
  contact peer hpeer := by
    rw [hcontact] at hpeer
    cases hpeer
  funded cmd invoice he hinvoice := by
    rw [hcmd cmd he] at hinvoice
    cases hinvoice
  short cmd he := by
    have hnone := hcmd cmd he
    cases cmd <;> trivial

/-- A local effect of a payment to a live peer. -/
theorem Steered.of_contact {e : Effect PeerId} {peer : PeerId}
    (hcontact : contact? h e = some peer) (hlive : peer ∈ live h)
    (hlocal : ∀ cmd, e ≠ .send cmd) : Steered self lib h e where
  contact peer' hpeer := by
    rw [hcontact] at hpeer
    exact Option.some.inj hpeer ▸ hlive
  funded cmd _ he _ := absurd he (hlocal cmd)
  short cmd he := absurd he (hlocal cmd)

/-- Questions steer nothing. -/
theorem inquiring_steered : Inquiring (steeredContract self lib) where
  benign h e he hproof hpays := by
    refine Steered.of_none ?_ ?_
    · cases e with
      | send cmd => cases cmd <;> first | rfl | cases hproof
      | suiAddrCacheGet | onchainPay | paymentCounterFetchAdd => cases hpays
      | _ => rfl
    · rintro cmd rfl
      cases cmd <;> first | rfl | cases hproof

/-! ### Payments -/

/-- Asking for a vault leaves the list and the payment in progress alone. -/
theorem queryVault_steered (peer : PeerId) :
    Meets (steeredContract self lib) h (queryVault peer) fun h' _ =>
      live h' = live h ∧ payee h' = payee h := by
  refine ⟨.of_none rfl (by rintro cmd ⟨⟩), fun known _ => ?_⟩
  cases known with
  | true => exact ⟨live_kept rfl rfl, payee_kept rfl rfl⟩
  | false =>
      refine ⟨.of_none rfl (by rintro cmd ⟨⟩; rfl), fun sent _ => ?_⟩
      refine ⟨.of_none rfl (by rintro cmd ⟨⟩), fun _ _ => ⟨?_, ?_⟩⟩
      · exact live_kept (live_kept (live_kept rfl rfl) rfl) rfl
      · exact payee_kept (payee_kept (payee_kept rfl rfl) rfl) rfl

/-- The synthetic proof is one of a payment of its amount. -/
theorem syntheticPay_steered {wallet : ZingWallet} (hw : self.wallet = some wallet)
    {peer : PeerId} (hpayee : payee h = some peer) (hlive : peer ∈ live h)
    (recipient : Address) (blobHash : Bytes32) (amount : ℕ) :
    Meets (steeredContract self lib) h (syntheticPay lib recipient blobHash amount)
      fun h' r => live h' = live h ∧ ∃ d, r = .ok d ∧ Funded self lib h' ⟨blobHash, amount, d⟩ := by
  refine ⟨.of_contact hpayee hlive (by rintro cmd ⟨⟩), fun c _ => ?_⟩
  refine ⟨live_kept rfl rfl, _, rfl, ?_⟩
  exact .synthetic recipient blobHash amount c hw (List.mem_append_right _ List.mem_cons_self)

/-- `pay_wal` pays its amount, on chain or with a synthetic proof. -/
theorem payWal_steered {wallet : ZingWallet} (hw : self.wallet = some wallet)
    {peer : PeerId} (hpayee : payee h = some peer) (hlive : peer ∈ live h)
    (recipient : Address) (blobHash : Bytes32) (amount : ℕ) :
    Meets (steeredContract self lib) h (wallet.payWal lib recipient blobHash amount)
      fun h' r => live h' = live h ∧ ∃ d, r = .ok d ∧ Funded self lib h' ⟨blobHash, amount, d⟩ := by
  rw [ZingWallet.payWal]
  cases hs : wallet.settlement with
  | none => exact syntheticPay_steered hw hpayee hlive recipient blobHash amount
  | some settlement =>
      refine ⟨.of_contact hpayee hlive (by rintro cmd ⟨⟩), fun o _ => ?_⟩
      have hpayee' : payee (h ++ [⟨.onchainPay recipient blobHash amount, o⟩]) = some peer :=
        payee_kept hpayee rfl
      have hkept : live (h ++ [⟨.onchainPay recipient blobHash amount, o⟩]) = live h :=
        live_kept rfl rfl
      have hlive' : peer ∈ live (h ++ [⟨.onchainPay recipient blobHash amount, o⟩]) := by
        rwa [hkept]
      show Meets _ _ (finishPayment lib recipient blobHash amount
        (wallet.tryOnchainPay lib settlement recipient blobHash amount o)) _
      rcases htry : wallet.tryOnchainPay lib settlement recipient blobHash amount o
        with - | err | d
      · trivial
      · refine (syntheticPay_steered hw hpayee' hlive' recipient blobHash amount).mono ?_
        rintro h' r - ⟨hlist, hfunded⟩
        exact ⟨hlist.trans hkept, hfunded⟩
      · refine ⟨.of_contact hpayee' hlive' (by rintro cmd ⟨⟩), fun c _ => ?_⟩
        refine ⟨live_kept hkept rfl, d, rfl, ?_⟩
        refine .onchain o hw hs ?_ htry
        exact List.mem_append_left _ (List.mem_append_right _ List.mem_cons_self)

/-- Paying an address pays the amount, or nothing. -/
theorem payAddress_steered {wallet : ZingWallet} (hw : self.wallet = some wallet)
    {peer : PeerId} (hpayee : payee h = some peer) (hlive : peer ∈ live h) (invalid : String)
    (addr blobHash : Bytes32) (amount : ℕ) :
    Meets (steeredContract self lib) h (payAddress lib wallet invalid addr blobHash amount)
      fun h' payment => live h' = live h ∧ Funded self lib h' ⟨blobHash, amount, payment.1⟩ := by
  rw [payAddress]
  rcases lib.addressFromBytes addr with e | recipient
  · exact ⟨rfl, .unpaid _ _⟩
  · refine (payWal_steered hw hpayee hlive recipient blobHash amount).bind ?_
    rintro h' - - ⟨hlist, d, rfl, hfunded⟩
    exact ⟨hlist, hfunded⟩

/-- **One payment** for a peer of the list: its proof is one of the amount, and the list
stays. -/
theorem resolvePayment_steered {peer : PeerId} (hlive : peer ∈ live h) (blobHash : Bytes32)
    (amount : ℕ) :
    Meets (steeredContract self lib) h (self.resolvePayment lib peer blobHash amount)
      fun h' payment => live h' = live h ∧ Funded self lib h' ⟨blobHash, amount, payment.1⟩ := by
  rw [resolvePayment]
  cases hw : self.wallet with
  | none => exact ⟨rfl, .unpaid _ _⟩
  | some wallet =>
      refine ⟨.of_contact rfl hlive (by rintro cmd ⟨⟩), fun cached _ => ?_⟩
      -- every continuation starts from the same list, with the peer as the payee
      have hpay : ∀ {h₁ : Trace PeerId} (invalid : String) (addr : Bytes32),
          live h₁ = live h → payee h₁ = some peer →
            Meets (steeredContract self lib) h₁
              (payAddress lib wallet invalid addr blobHash amount) fun h' payment =>
                live h' = live h ∧ Funded self lib h' ⟨blobHash, amount, payment.1⟩ := by
        intro h₁ invalid addr hlist hpayee
        refine (payAddress_steered hw hpayee (hlist ▸ hlive) invalid addr blobHash amount).mono ?_
        rintro h' payment - ⟨hlist', hfunded⟩
        exact ⟨hlist'.trans hlist, hfunded⟩
      rcases cached with - | - | addr
      · refine ⟨.of_none rfl (by rintro cmd ⟨⟩; rfl), fun sent _ => ?_⟩
        cases sent with
        | false =>
            refine ⟨.of_none rfl (by rintro cmd ⟨⟩), fun _ _ => ⟨?_, .unpaid _ _⟩⟩
            exact live_kept (live_kept (live_kept rfl rfl) rfl) rfl
        | true =>
            refine ⟨.of_none rfl (by rintro cmd ⟨⟩), fun reply _ => ?_⟩
            refine ⟨.of_none rfl (by rintro cmd ⟨⟩), fun _ _ => ?_⟩
            refine (queryVault_steered peer).bind ?_
            rintro h₁ - - ⟨hlist, hpayee⟩
            replace hlist : live h₁ = live h := hlist.trans
              (live_kept (live_kept (live_kept (live_kept rfl rfl) rfl) rfl) rfl)
            replace hpayee : payee h₁ = some peer := hpayee.trans
              (payee_kept (payee_kept (payee_kept (payee_concat _ _) rfl) rfl) rfl)
            rcases Option.join reply with - | addr
            · exact ⟨hlist, .unpaid _ _⟩
            · exact hpay _ addr hlist hpayee
      · exact ⟨live_kept rfl rfl, .unpaid _ _⟩
      · exact hpay _ addr (live_kept rfl rfl) (payee_concat _ _)

/-! ### Fetches -/

/-- A fetch from a peer of the list, with a proof of payment. -/
structure Fetchable (node : Resolver PeerId) (lib : Externals PeerId) (h : Trace PeerId)
    (cmd : P2pCommand PeerId) : Prop where
  source : ∃ peer ∈ live h, cmd.source? = some peer
  funded : ∃ invoice, cmd.invoice? = some invoice ∧ Funded node lib h invoice
  short : cmd.Short

/-- Sending a fetch to a live peer, with its payment. -/
theorem Fetchable.steered {cmd : P2pCommand PeerId} (hf : Fetchable self lib h cmd) :
    Steered self lib h (.send cmd) := by
  obtain ⟨⟨peer, hlive, hsource⟩, ⟨invoice, hinvoice, hfunded⟩, hshort⟩ := hf
  constructor
  · intro peer' hpeer
    cases cmd with
    | fetchBlob | fetchRange =>
        cases hsource
        cases hpeer
        exact hlive
    | _ => cases hinvoice
  · rintro cmd' invoice' ⟨⟩ hinvoice'
    exact Option.some.inj (hinvoice.symm.trans hinvoice') ▸ hfunded
  · rintro cmd' ⟨⟩
    exact hshort

/-- The reply to a fetch lists nobody. -/
theorem keepsList_await {cmd : P2pCommand PeerId} {invoice : Invoice}
    (hinvoice : cmd.invoice? = some invoice) (timeout : Option ℕ) :
    (Effect.await cmd timeout).keepsList = true := by
  cases cmd <;> first | rfl | cases hinvoice

/-- A peer stays fetchable until the next list. -/
theorem Fetchable.mono {cmd : P2pCommand PeerId} (hpre : h <+: h') (hlist : live h' = live h)
    (hf : Fetchable self lib h cmd) : Fetchable self lib h' cmd := by
  obtain ⟨hsource, ⟨invoice, hinvoice, hfunded⟩, hshort⟩ := hf
  exact ⟨hlist ▸ hsource, ⟨invoice, hinvoice, hfunded.mono hpre⟩, hshort⟩

/-- Awaiting data makes no new list. -/
theorem awaitData_steered {cmd : P2pCommand PeerId} {invoice : Invoice}
    (hinvoice : cmd.invoice? = some invoice) (timeout : ℕ) :
    Meets (steeredContract self lib) h (awaitData cmd timeout) fun h' _ => live h' = live h :=
  ⟨.of_none rfl (by rintro cmd ⟨⟩), fun _ _ => live_kept rfl (keepsList_await hinvoice _)⟩

/-- Nor does a fetch. -/
theorem fetch_steered {cmd : P2pCommand PeerId} (hf : Fetchable self lib h cmd) :
    Meets (steeredContract self lib) h (fetch cmd) fun h' _ => live h' = live h := by
  refine ⟨hf.steered, fun sent _ => ?_⟩
  have hsent : live (h ++ [⟨.send cmd, sent⟩]) = live h := live_kept rfl rfl
  cases sent with
  | false => exact hsent
  | true =>
      obtain ⟨invoice, hinvoice, -⟩ := hf.funded
      refine (awaitData_steered hinvoice 30).mono ?_
      rintro h' - - hlist
      exact hlist.trans hsent

/-- **A payment and a fetch** from a peer of the list. -/
theorem payThenFetch_steered {peer : PeerId} (hlive : peer ∈ live h)
    (cmd : PaymentProof → P2pCommand PeerId) {blobHash : Bytes32} {amount : ℕ}
    (hsource : ∀ proof, (cmd proof).source? = some peer)
    (hinvoice : ∀ proof, (cmd proof).invoice? = some ⟨blobHash, amount, proof⟩)
    (hshort : ∀ proof, (cmd proof).Short) :
    Meets (steeredContract self lib) h (self.resolvePayment lib peer blobHash amount)
      fun h₁ payment => Meets (steeredContract self lib) h₁ (fetch (cmd payment.1))
        fun h₂ _ => live h₂ = live h := by
  refine (resolvePayment_steered hlive blobHash amount).mono ?_
  rintro h₁ payment - ⟨hlist, hfunded⟩
  have hfetchable : Fetchable self lib h₁ (cmd payment.1) :=
    ⟨⟨peer, hlist ▸ hlive, hsource _⟩, ⟨_, hinvoice _, hfunded⟩, hshort _⟩
  refine (fetch_steered hfetchable).mono ?_
  rintro h₂ - - hlist'
  exact hlist'.trans hlist

/-- The end of a fetch turns to nobody. -/
theorem finalizeL1Fetch_steered {peer : PeerId} {data : Bytes} {err : Option String} :
    Meets (steeredContract self lib) h (finalizeL1Fetch lib blobId key peer data err)
      fun _ _ => True := by
  rw [finalizeL1Fetch]
  split
  · exact ⟨.of_none rfl (by rintro cmd ⟨⟩), fun _ _ => trivial⟩
  · refine ⟨.of_none rfl (by rintro cmd ⟨⟩), fun _ _ => ⟨.of_none rfl (by rintro cmd ⟨⟩),
      fun _ _ => ⟨.of_none rfl (by rintro cmd ⟨⟩), fun _ _ => trivial⟩⟩⟩

/-! ### Strategies that ask one peer after the other -/

/-- The loop over whole blobs asks peers of the list. -/
theorem directPeersLoop_steered {l : List PeerId} (hl : ∀ peer ∈ l, peer ∈ live h) :
    Meets (steeredContract self lib) h (self.directPeersLoop lib blobId key l)
      fun _ _ => True := by
  induction l generalizing h with
  | nil => trivial
  | cons peer rest ih =>
      refine (payThenFetch_steered (hl peer List.mem_cons_self) (.fetchBlob peer blobId.bytes ·)
        (fun _ => rfl) (fun _ => rfl) (fun _ => trivial)).bind fun h₁ payment _ hfetch => ?_
      refine hfetch.bind fun h₂ reply _ hlist => ?_
      rcases reply with - | data
      · exact ih fun q hq => hlist ▸ hl q (List.mem_cons_of_mem _ hq)
      · exact finalizeL1Fetch_steered

/-- The chunk loop stays with its peer. -/
theorem rangeChunks_steered {peer : PeerId} {fuel offset : ℕ} {data : Bytes}
    {err : Option String} (hlive : peer ∈ live h) :
    Meets (steeredContract self lib) h (self.rangeChunks lib blobId peer fuel offset data err)
      fun _ _ => True := by
  induction fuel generalizing h offset data err with
  | zero => trivial
  | succ fuel ih =>
      rw [rangeChunks]
      split
      · trivial
      refine (payThenFetch_steered hlive (.fetchRange peer blobId.bytes offset rangeChunk ·)
        (fun _ => rfl) (fun _ => rfl) (fun _ => le_refl _)).bind fun h₁ payment _ hfetch => ?_
      refine hfetch.bind fun h₂ reply _ hlist => ?_
      rcases reply with - | nextChunk
      · trivial
      · refine Meets.ite (fun hempty => ?_) fun hnonempty => ?_
        · trivial
        · split
          · trivial
          · exact ih (hlist ▸ hlive)

/-- The loop over the peers of the sequential ranges asks peers of the list. -/
theorem directPeersRangeLoop_steered {l : List PeerId} (hl : ∀ peer ∈ l, peer ∈ live h) :
    Meets (steeredContract self lib) h (self.directPeersRangeLoop lib blobId key l)
      fun _ _ => True := by
  induction l generalizing h with
  | nil => trivial
  | cons peer rest ih =>
      have hpeer := hl peer List.mem_cons_self
      refine (payThenFetch_steered hpeer (.fetchRange peer blobId.bytes 0 rangeChunk ·)
        (fun _ => rfl) (fun _ => rfl) (fun _ => le_refl _)).bind fun h₁ payment _ hfetch => ?_
      refine hfetch.bind fun h₂ reply _ hlist => ?_
      rcases reply with - | chunk
      · exact ih fun q hq => hlist ▸ hl q (List.mem_cons_of_mem _ hq)
      · refine Meets.ite (fun hshort => ?_) fun hfull => ?_
        · exact finalizeL1Fetch_steered
        · refine (rangeChunks_steered (hlist ▸ hpeer)).bind fun h₃ assembled _ _ => ?_
          rcases assembled with - | ⟨data, err⟩
          · trivial
          · exact finalizeL1Fetch_steered

/-! ### Strategies that ask several peers at once -/

/-- **A payment for each of some peers of the list.** -/
theorem payAll_steered {l : List PeerId} (hl : ∀ peer ∈ l, peer ∈ live h) (blobHash : Bytes32)
    (amount : ℕ) :
    Meets (steeredContract self lib) h
      (l.mapM fun peer => self.resolvePayment lib peer blobHash amount) fun h' payments =>
        live h' = live h ∧
          ∀ proof ∈ payments.map Prod.fst, Funded self lib h' ⟨blobHash, amount, proof⟩ := by
  refine (meets_mapM_acc (J := fun payments rest h' => live h' = live h ∧
    (∀ peer ∈ rest, peer ∈ live h) ∧
      ∀ proof ∈ payments.map Prod.fst, Funded self lib h' ⟨blobHash, amount, proof⟩)
    [] ?_ ⟨rfl, hl, by simp⟩).mono fun h' payments _ ⟨hlist, _, hfunded⟩ => ⟨hlist, hfunded⟩
  rintro payments peer rest h₁ ⟨hlist, hrest, hfunded⟩
  have hpeer : peer ∈ live h₁ := hlist ▸ hrest peer List.mem_cons_self
  refine (resolvePayment_steered hpeer blobHash amount).mono ?_
  rintro h₂ payment hpre ⟨hlist', hpaid⟩
  refine ⟨hlist'.trans hlist, fun q hq => hrest q (List.mem_cons_of_mem _ hq), ?_⟩
  intro proof hproof
  rw [List.map_append, List.mem_append] at hproof
  rcases hproof with hproof | hproof
  · exact (hfunded proof hproof).mono hpre
  · obtain rfl : proof = payment.1 := by simpa using hproof
    exact hpaid

/-- Sending some fetches: those that were sent are among them. -/
theorem sendAll_steered {α : Type} {l : List (α × P2pCommand PeerId)}
    (hl : ∀ x ∈ l, Fetchable self lib h x.2) :
    Meets (steeredContract self lib) h (sendAll l) fun h' pending =>
      live h' = live h ∧ ∀ x ∈ pending, x ∈ l := by
  induction l generalizing h with
  | nil => exact ⟨rfl, by simp⟩
  | cons x rest ih =>
      refine ⟨(hl x List.mem_cons_self).steered, fun sent _ => ?_⟩
      have hsent : live (h ++ [⟨.send x.2, sent⟩]) = live h := live_kept rfl rfl
      refine (ih fun y hy => ?_).bind ?_
      · exact (hl y (List.mem_cons_of_mem _ hy)).mono (List.prefix_append _ _) hsent
      rintro h₁ later - ⟨hlist, hsub⟩
      refine ⟨hlist.trans hsent, ?_⟩
      cases sent with
      | true =>
          intro y hy
          rcases List.mem_cons.mp hy with rfl | hy
          · exact List.mem_cons_self
          · exact List.mem_cons_of_mem _ (hsub y hy)
      | false => exact fun y hy => List.mem_cons_of_mem _ (hsub y hy)

/-- Awaiting some fetches: an answer is labelled like its request. -/
theorem awaitAll_steered {α : Type} {l : List (α × P2pCommand PeerId)} (timeout : ℕ)
    (hl : ∀ x ∈ l, ∃ invoice, x.2.invoice? = some invoice) :
    Meets (steeredContract self lib) h (l.mapM (awaitNonempty timeout)) fun h' answers =>
      live h' = live h ∧ ∀ y ∈ answers.reduceOption, ∃ x ∈ l, y.1 = x.1 := by
  refine (meets_mapM_acc (J := fun answers rest h' => live h' = live h ∧ (∀ x ∈ rest, x ∈ l) ∧
    ∀ y ∈ answers.reduceOption, ∃ x ∈ l, y.1 = x.1) [] ?_
    ⟨rfl, fun _ hx => hx, by simp⟩).mono fun h' answers _ ⟨hlist, _, hlabels⟩ =>
      ⟨hlist, by simpa using hlabels⟩
  rintro answers x rest h₁ ⟨hlist, hrest, hlabels⟩
  have hx := hrest x List.mem_cons_self
  have hrest' : ∀ y ∈ rest, y ∈ l := fun y hy => hrest y (List.mem_cons_of_mem _ hy)
  obtain ⟨invoice, hinvoice⟩ := hl x hx
  refine (awaitData_steered hinvoice timeout).bind ?_
  rintro h₂ reply - hlist'
  have hnone : ∀ y ∈ (answers ++ [none]).reduceOption, ∃ x ∈ l, y.1 = x.1 := by
    simpa [List.reduceOption_append] using hlabels
  rcases reply with - | data
  · exact ⟨hlist'.trans hlist, hrest', hnone⟩
  · refine Meets.ite (fun hempty => ?_) fun hnonempty => ?_
    · exact ⟨hlist'.trans hlist, hrest', hnone⟩
    · refine ⟨hlist'.trans hlist, hrest', fun y hy => ?_⟩
      rw [List.reduceOption_append, List.mem_append] at hy
      rcases hy with hy | hy
      · exact hlabels y hy
      · obtain rfl : y = (x.1, data) := by simpa [List.reduceOption] using hy
        exact ⟨x, hx, rfl⟩

/-- The windows are over peers of the list. -/
theorem rangeWindows_steered {lead : PeerId} {others : List PeerId} {fuel window : ℕ}
    {data : Bytes} {err : Option String} (hl : ∀ peer ∈ lead :: others, peer ∈ live h) :
    Meets (steeredContract self lib) h
      (self.rangeWindows lib blobId key lead others fuel window data err) fun _ _ => True := by
  induction fuel generalizing h window data err with
  | zero => trivial
  | succ fuel ih =>
      rw [rangeWindows_succ]
      refine (payAll_steered hl blobId.bytes _).bind fun h₁ payments _ hpaid => ?_
      obtain ⟨hlist₁, hfunded⟩ := hpaid
      have hrequests : ∀ x ∈ chunkRequests blobId (window * (lead :: others).length * chunkSize)
          ((lead :: others).zip (payments.map Prod.fst)), Fetchable self lib h₁ x.2 ∧
            ∃ invoice, x.2.invoice? = some invoice := by
        intro x hx
        obtain ⟨⟨peer, proof⟩, hpair, heq⟩ := exists_of_mem_chunkRequests hx
        obtain ⟨hpeer, hproof⟩ := List.of_mem_zip hpair
        rw [heq]
        exact ⟨⟨⟨peer, hlist₁ ▸ hl peer hpeer, rfl⟩, ⟨_, rfl, hfunded proof hproof⟩,
          (by decide : chunkSize ≤ rangeChunk)⟩, _, rfl⟩
      refine (sendAll_steered fun x hx => (hrequests x hx).1).bind fun h₂ pending _ hsent => ?_
      obtain ⟨hlist₂, hsub⟩ := hsent
      refine (awaitAll_steered 30 fun x hx => (hrequests x (hsub x hx)).2).bind
        fun h₃ responses _ hanswered => ?_
      obtain ⟨hlist₃, -⟩ := hanswered
      have hl₃ : ∀ peer ∈ lead :: others, peer ∈ live h₃ := by
        intro peer hpeer
        rw [hlist₃, hlist₂, hlist₁]
        exact hl peer hpeer
      exact meets_afterWindow trivial (fun _ => finalizeL1Fetch_steered) fun _ => ih hl₃

/-! ### The resolve -/

/-- The connected peers are those of the list. -/
theorem connectedPeers_steered :
    Meets (steeredContract self lib) h (@connectedPeers PeerId) fun h' l =>
      ∀ peer ∈ l, peer ∈ live h' := by
  refine ⟨.of_none rfl (by rintro cmd ⟨⟩; rfl), fun sent _ => ?_⟩
  cases sent with
  | false => rintro peer ⟨⟩
  | true =>
      refine ⟨.of_none rfl (by rintro cmd ⟨⟩), fun reply _ => ?_⟩
      rcases reply with - | l
      · rintro peer ⟨⟩
      · intro peer hpeer
        rw [live_concat]
        exact hpeer

/-- The parallel strategy begins with the list. -/
theorem tryDirectPeersRangeParallel_steered :
    Meets (steeredContract self lib) h (self.tryDirectPeersRangeParallel lib blobId key)
      fun _ _ => True := by
  refine connectedPeers_steered.bind fun h₁ connected _ hconnected => ?_
  refine Meets.ite (fun hempty => ?_) fun hnonempty => ?_
  · trivial
  have hprobers : ∀ peer ∈ connected.take maxParallel, peer ∈ live h₁ := fun peer hpeer =>
    hconnected peer (List.mem_of_mem_take hpeer)
  refine (payAll_steered hprobers blobId.bytes _).bind fun h₂ payments _ ⟨hlist₂, hfunded⟩ => ?_
  have hrequests : ∀ x ∈ probeRequests blobId
      ((connected.take maxParallel).zip (payments.map Prod.fst)), x.1 ∈ live h₁ ∧
        Fetchable self lib h₂ x.2 ∧ ∃ invoice, x.2.invoice? = some invoice := by
    intro x hx
    obtain ⟨⟨peer, proof⟩, hpair, rfl⟩ := List.mem_map.mp hx
    obtain ⟨hpeer, hproof⟩ := List.of_mem_zip hpair
    have hlive := hprobers peer hpeer
    exact ⟨hlive, ⟨⟨peer, hlist₂ ▸ hlive, rfl⟩, ⟨_, rfl, hfunded proof hproof⟩,
      (by decide : 8 ≤ rangeChunk)⟩, _, rfl⟩
  refine (sendAll_steered fun x hx => (hrequests x hx).2.1).bind
    fun h₃ probes _ ⟨hlist₃, hsub⟩ => ?_
  refine (awaitAll_steered 5 fun x hx => (hrequests x (hsub x hx)).2.2).bind
    fun h₄ answers _ ⟨hlist₄, hlabels⟩ => ?_
  have hworking : ∀ peer ∈ answers.reduceOption.map Prod.fst, peer ∈ live h₄ := by
    intro peer hpeer
    obtain ⟨y, hy, rfl⟩ := List.mem_map.mp hpeer
    obtain ⟨x, hx, hlabel⟩ := hlabels y hy
    rw [hlist₄, hlist₃, hlist₂, hlabel]
    exact (hrequests x (hsub x hx)).1
  rcases hcons : answers.reduceOption.map Prod.fst with - | ⟨lead, others⟩
  · trivial
  · exact rangeWindows_steered (hcons ▸ hworking)

section Providers

variable [DecidableEq PeerId]

/-- A provider that the poll finds is on the list. -/
theorem pollConnected_steered (dhtPeers : List PeerId) (iterations : ℕ) :
    Meets (steeredContract self lib) h (pollConnected dhtPeers iterations)
      fun h' polled => ∀ peer, polled = some peer → peer ∈ live h' := by
  induction iterations generalizing h with
  | zero => rintro peer ⟨⟩
  | succ iterations ih =>
      refine ⟨.of_none rfl (by rintro cmd ⟨⟩), fun _ _ =>
        ⟨.of_none rfl (by rintro cmd ⟨⟩; rfl), fun sent _ => ?_⟩⟩
      cases sent with
      | false => rintro peer ⟨⟩
      | true =>
          refine ⟨.of_none rfl (by rintro cmd ⟨⟩), fun reply _ => ?_⟩
          dsimp only [Prog.bind]
          split
          · rename_i peer hfind
            rintro _ ⟨⟩
            let connected : List PeerId := reply.getD []
            have hfound := List.find?_some hfind
            have hmem : peer ∈ connected := of_decide_eq_true hfound
            rcases reply with - | l
            · exact absurd hmem List.not_mem_nil
            · rw [live_concat]
              exact hmem
          · exact ih

/-- The DHT part polls the list before it fetches. -/
theorem tryProviders_steered :
    Meets (steeredContract self lib) h (self.tryProviders lib blobId key) fun _ _ => True := by
  have hq : Inquiring (steeredContract self lib) := inquiring_steered
  have hproviders : ∀ h l, Meets (steeredContract self lib) h
      (self.fetchFromProviders lib blobId key l) fun _ _ => True := by
    intro h l
    refine (hq.dialProviders_bound (P := 0) l).meets.bind fun h₁ _ _ _ => ?_
    refine (hq.queryAndDial_bound (P := 0) l).meets.bind fun h₂ _ _ _ => ?_
    refine (pollConnected_steered l _).bind fun h₃ polled _ hlive => ?_
    rcases polled with - | peer
    · trivial
    · refine (payThenFetch_steered (hlive peer rfl) (.fetchBlob peer blobId.bytes ·)
        (fun _ => rfl) (fun _ => rfl) (fun _ => trivial)).bind fun h₄ payment _ hfetch => ?_
      refine hfetch.bind fun h₅ reply _ _ => ?_
      rcases reply with - | data
      · trivial
      · exact finalizeL1Fetch_steered
  refine (hq.runFindProviders_bound (P := 0)).meets.bind fun h₁ found _ _ => ?_
  refine Meets.ite (fun hempty => ?_) fun hnonempty => ?_
  · refine (hq.retryFindProviders_bound (P := 0) 3).meets.bind fun h₂ retried _ _ => ?_
    refine Meets.ite (fun hempty => ?_) fun hnonempty => ?_
    · trivial
    · exact hproviders h₂ retried
  · exact hproviders h₁ _

/-- All four strategies. -/
theorem resolveFromL1_steered :
    Meets (steeredContract self lib) h (self.resolveFromL1 lib blobId key) fun _ _ => True := by
  have hnext : ∀ {h : Trace PeerId} {first next : Action PeerId L1Result},
      Meets (steeredContract self lib) h first (fun _ _ => True) →
      (∀ h, Meets (steeredContract self lib) h next fun _ _ => True) →
        Meets (steeredContract self lib) h (orElse first next) fun _ _ => True :=
    fun hfirst hnext => meets_orElse (hfirst.mono fun h' _ _ _ =>
      ⟨fun _ => hnext h', fun _ => trivial⟩)
  refine hnext tryDirectPeersRangeParallel_steered fun h => ?_
  refine hnext (connectedPeers_steered.bind fun h₁ l _ hl => directPeersRangeLoop_steered hl)
    fun h => ?_
  exact hnext (connectedPeers_steered.bind fun h₁ l _ hl => directPeersLoop_steered hl)
    fun h => tryProviders_steered

omit [DecidableEq PeerId] in
/-- Walrus is read without peers. -/
theorem resolveFromWalrus_steered :
    Meets (steeredContract self lib) h (resolveFromWalrus blobId key : Action PeerId _)
      fun _ _ => True := by
  exact meets_resolveFromWalrus (.of_none rfl (by rintro cmd ⟨⟩))
    (fun data _ => ⟨.of_none rfl (by rintro cmd ⟨⟩), fun _ => trivial⟩)
    (fun _ => .of_none rfl (by rintro cmd ⟨⟩)) fun _ _ => trivial

/-- **A resolve is steered**: it pays and asks the peers of its list only, and pays its own
price for each fetch. -/
theorem resolve_steered (self : Resolver PeerId) (lib : Externals PeerId) (blobId : BlobId) :
    Meets (steeredContract self lib) [] (self.resolve lib blobId) fun _ _ => True := by
  refine meets_resolve (.of_none rfl (by rintro cmd ⟨⟩)) (fun _ _ => trivial) (fun _ _ => trivial)
    fun _ => ?_
  exact meets_resolveUncached resolveFromL1_steered (fun _ _ _ => trivial)
    (fun _ _ => resolveFromWalrus_steered) fun _ => resolveFromWalrus_steered

end Providers

end ZingCdn
