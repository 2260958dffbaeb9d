import Mathlib.Data.List.DropRight
import ZingCdn.Liveness
import ZingCdn.RangeAssembly

/-!
# Whether Failed Payments Are Reported

A fetch carries a proof of payment, and a resolve reports a payment error. Two things are
promised: a proof other than zero is the digest of an executed payment, and when a payment
for a fetch that brings data failed, the result says so.

Both break in one place each. When the attempt on chain fails, `pay_wal` falls back to a
synthetic proof, which looks like a digest and carries no error. And a peer whose address
could not be found is remembered as one without an address, for which the next payment is
skipped without an error. Everything else is reported: a failed lookup travels through the
errors that the four strategies merge.

What happened is read off the history. A strategy over peers begins with the list of
connected peers, so the events since then are those of the strategy that delivers
(`round`); among them are the peers that brought data and the peers whose payment failed.

## Main results

* `runs_payWal`: the runs of `pay_wal`.
* `resolve_surfaced`: when every attempt on chain succeeds, proofs are genuine and failed
  lookups are reported.
* `payment_surfaced`: both promises, with the conditions under which they hold.
* `not_payment_surfaced`: a failed attempt goes out as a proof, without an error.
-/

open Program Program.Prog

namespace ZingCdn

open Resolver

variable {PeerId : Type}

/-! ### Executed payments -/

/-- The transaction calls `pay` of the configured settlement contract. -/
structure PayTransaction.CallsPay (tx : PayTransaction) (settlement : SettlementConfig) :
    Prop where
  package : tx.package = settlement.packageId
  moduleName : tx.moduleName = "settlement"
  function : tx.function = "pay"

/-- The transaction that is built calls `pay`. -/
theorem SettlementConfig.callsPay_of_build {settlement : SettlementConfig}
    {lib : Externals PeerId} {sender recipient : Address} {blobHash : Bytes32} {amount : ℕ}
    {vault : Address} {tx : PayTransaction}
    (htx : settlement.buildPayTransaction lib sender recipient blobHash amount vault = some tx) :
    tx.CallsPay settlement := by
  obtain ⟨tag, -, rfl⟩ := Option.map_eq_some_iff.mp htx
  exact ⟨rfl, rfl, rfl⟩

section Wallet

variable (wallet : ZingWallet) (settlement : SettlementConfig) (lib : Externals PeerId)

/-- The digest is the one reported for the payment that the attempt submitted. -/
def Receipt (recipient : Address) (blobHash : Bytes32) (amount : ℕ) (o : OnchainOutcome)
    (d : PaymentProof) : Prop :=
  (∃ tx, wallet.payTransaction lib settlement recipient blobHash amount o = some (.ok tx) ∧
    tx.CallsPay settlement) ∧
    ∃ digest, o.execute = .ok (some digest) ∧ lib.bs58Decode digest = .ok d.toList

/-- The digest is that of a payment executed in the history. -/
def Executed (t : Trace PeerId) (d : PaymentProof) : Prop :=
  ∃ recipient blobHash amount, ∃ o : OnchainOutcome,
    ⟨.onchainPay recipient blobHash amount, o⟩ ∈ t ∧
      Receipt wallet settlement lib recipient blobHash amount o d

/-- An attempt to pay on chain fails: on the way, or for its response. -/
def AttemptFails : (e : Effect PeerId) → e.Ans → Prop
  | .onchainPay recipient blobHash amount, o =>
      ∃ err, wallet.tryOnchainPay lib settlement recipient blobHash amount o = some (.error err)
  | _, _ => False

variable {wallet settlement lib}

/-- A submitted transaction calls `pay`. -/
theorem ZingWallet.callsPay_of_payTransaction {recipient : Address} {blobHash : Bytes32}
    {amount : ℕ} {o : OnchainOutcome} {tx : PayTransaction}
    (htx : wallet.payTransaction lib settlement recipient blobHash amount o = some (.ok tx)) :
    tx.CallsPay settlement := by
  rw [ZingWallet.payTransaction] at htx
  split at htx
  · cases htx
  · split at htx
    · cases htx
    · split at htx
      · cases htx
      · rename_i hbuild
        split at htx
        · cases htx
        · split at htx
          · cases htx
          · cases htx
            exact SettlementConfig.callsPay_of_build hbuild

/-- **The attempt succeeds with the digest of its payment**, and with nothing else. -/
theorem ZingWallet.tryOnchainPay_eq_ok_iff {recipient : Address} {blobHash : Bytes32}
    {amount : ℕ} {o : OnchainOutcome} {d : PaymentProof} :
    wallet.tryOnchainPay lib settlement recipient blobHash amount o = some (.ok d) ↔
      Receipt wallet settlement lib recipient blobHash amount o d := by
  unfold ZingWallet.tryOnchainPay Receipt
  rcases htx : wallet.payTransaction lib settlement recipient blobHash amount o
    with - | err | tx
  · simp
  · simp
  · have hcalls := ZingWallet.callsPay_of_payTransaction htx
    rcases hexec : o.execute with err | - | digest
    · simp
    · simp
    · rcases hdecode : lib.bs58Decode digest with err | raw
      · simp [hdecode]
      · obtain ⟨bytes, hbytes⟩ := d
        by_cases hlen : raw.length = 32
        · have hval : (.ok ⟨raw, hlen⟩ : ZingResult PaymentProof) = .ok ⟨bytes, hbytes⟩ ↔
              raw = bytes :=
            ⟨fun heq => congrArg List.Vector.toList (Except.ok.inj heq),
              fun heq => congrArg Except.ok (List.Vector.eq _ _ heq)⟩
          simp [hdecode, hlen, hcalls, hval]
        · have hne : raw ≠ bytes := fun heq => hlen (heq ▸ hbytes)
          simp [hdecode, hlen, hne]

/-- The runs of `pay_wal`: the attempt comes first, and a failed one ends in a synthetic
proof. -/
theorem ZingWallet.runs_payWal (hs : wallet.settlement = some settlement) {recipient : Address}
    {blobHash : Bytes32} {amount : ℕ} {t : Trace PeerId}
    {r : Option (ZingResult PaymentProof)}
    (hrun : (wallet.payWal lib recipient blobHash amount).Runs t r) :
    ∃ (o : OnchainOutcome) (rest : Trace PeerId),
      t = ⟨.onchainPay recipient blobHash amount, o⟩ :: rest ∧
      (∀ ev ∈ rest, ev.1 = .paymentCounterFetchAdd) ∧
      ((wallet.tryOnchainPay lib settlement recipient blobHash amount o = none ∧ r = none) ∨
        (∃ d, wallet.tryOnchainPay lib settlement recipient blobHash amount o = some (.ok d) ∧
          r = some (.ok d)) ∨
        ∃ err c, wallet.tryOnchainPay lib settlement recipient blobHash amount o
            = some (.error err) ∧
          r = some (.ok (syntheticProof lib recipient blobHash amount c))) := by
  rw [ZingWallet.payWal] at hrun
  rw [hs] at hrun
  obtain ⟨o, rest, rfl, hfinish⟩ := runs_call_iff.mp hrun
  refine ⟨o, rest, rfl, ?_⟩
  replace hfinish : (finishPayment lib recipient blobHash amount
    (wallet.tryOnchainPay lib settlement recipient blobHash amount o)).Runs rest r := hfinish
  generalize wallet.tryOnchainPay lib settlement recipient blobHash amount o = attempt
    at hfinish ⊢
  rcases attempt with - | err | d
  · obtain ⟨rfl, rfl⟩ := runs_panic_iff.mp hfinish
    exact ⟨by simp, .inl ⟨rfl, rfl⟩⟩
  · obtain ⟨c, t, rfl, hend⟩ := runs_call_iff.mp hfinish
    obtain ⟨rfl, rfl⟩ := runs_ret_iff.mp hend
    exact ⟨by simp, .inr (.inr ⟨err, _, rfl, rfl⟩)⟩
  · obtain ⟨c, t, rfl, hend⟩ := runs_call_iff.mp hfinish
    obtain ⟨rfl, rfl⟩ := runs_ret_iff.mp hend
    exact ⟨by simp, .inr (.inl ⟨d, rfl, rfl⟩)⟩

/-- **When `pay_wal` yields a digest only**: the attempt does not fail. -/
theorem ZingWallet.payWal_genuine_iff (hs : wallet.settlement = some settlement)
    {recipient : Address} {blobHash : Bytes32} {amount : ℕ} {t : Trace PeerId}
    {r : Option (ZingResult PaymentProof)}
    (hrun : (wallet.payWal lib recipient blobHash amount).Runs t r) :
    (∀ d, r = some (.ok d) → Executed wallet settlement lib t d) ↔
      ∀ ev ∈ t, ¬ AttemptFails wallet settlement lib ev.1 ev.2 := by
  obtain ⟨o, rest, rfl, hrest, hcases⟩ := ZingWallet.runs_payWal hs hrun
  have hquiet : (∀ ev ∈ (⟨.onchainPay recipient blobHash amount, o⟩ :: rest : Trace PeerId),
      ¬ AttemptFails wallet settlement lib ev.1 ev.2) ↔
        ∀ err, wallet.tryOnchainPay lib settlement recipient blobHash amount o
          ≠ some (.error err) := by
    constructor
    · intro hall err herr
      exact hall _ List.mem_cons_self ⟨err, herr⟩
    · rintro hne ⟨e, r⟩ (_ | ⟨_, hev⟩)
      · rintro ⟨err, herr⟩
        exact hne err herr
      · obtain rfl : e = .paymentCounterFetchAdd := hrest _ hev
        exact id
  rw [hquiet]
  obtain ⟨htry, rfl⟩ | ⟨d, htry, rfl⟩ | ⟨err, c, htry, rfl⟩ := hcases
  · simp [htry]
  · have hreceipt := ZingWallet.tryOnchainPay_eq_ok_iff.mp htry
    refine iff_of_true ?_ (by simp [htry])
    rintro d' ⟨⟩
    exact ⟨_, _, _, o, List.mem_cons_self, hreceipt⟩
  · -- the synthetic proof is not the digest of the only attempt
    refine ⟨fun hgenuine => ?_, fun hne => absurd htry (hne err)⟩
    obtain ⟨_, _, _, o', hmem, hreceipt⟩ := hgenuine _ rfl
    rcases List.mem_cons.mp hmem with heq | hmem
    · cases heq
      rw [ZingWallet.tryOnchainPay_eq_ok_iff.mpr hreceipt] at htry
      cases htry
    · cases hrest _ hmem

end Wallet

/-! ### The strategy that delivers -/

/-- A strategy over peers begins by asking for the connected peers. -/
def Effect.startsRound : Effect PeerId → Bool
  | .send .getConnectedPeers => true
  | _ => false

/-- The events of the last strategy over peers, or of the last poll for a provider and what
follows it. -/
def round (t : Trace PeerId) : Trace PeerId := t.rtakeWhile fun ev => !ev.1.startsRound

theorem round_concat {t : Trace PeerId} {ev : Event (@Effect.Ans PeerId)}
    (hstart : ev.1.startsRound = false) : round (t ++ [ev]) = round t ++ [ev] :=
  List.rtakeWhile_concat_pos _ _ _ (by rw [hstart]; rfl)

theorem round_start {t : Trace PeerId} {ev : Event (@Effect.Ans PeerId)}
    (hstart : ev.1.startsRound = true) : round (t ++ [ev]) = [] :=
  List.rtakeWhile_concat_neg _ _ _ (by rw [hstart]; exact Bool.false_ne_true)

section Round

variable [DecidableEq PeerId] (lib : Externals PeerId)

/-- The peer brings data. -/
def brings (peer : PeerId) : (e : Effect PeerId) → e.Ans → Bool
  | .await cmd _, reply => decide (cmd.source? = some peer) && (Option.bind reply cmd.data?).isSome
  | _, _ => false

/-- The address of a peer is missing, or not a Sui address. -/
def badAddress : Option Bytes32 → Bool
  | some addr => !(lib.addressFromBytes addr).isOk
  | none => true

/-- A payment finds no address of the peer to pay to: the node does not ask for it, there is
no answer in time or none with an address, or it is not a Sui address. -/
def addressFails (peer : PeerId) : (e : Effect PeerId) → e.Ans → Bool
  | .suiAddrCacheGet p, some (some addr) => decide (p = peer) && badAddress lib (some addr)
  | .send (.getPeerSuiAddress p), sent => decide (p = peer) && !sent
  | .await (.getPeerSuiAddress p) _, reply =>
      decide (p = peer) && badAddress lib (Option.join reply)
  | _, _ => false

/-- The peers that brought data in the last round. -/
def servingPeers (t : Trace PeerId) : Set PeerId :=
  {peer | ∃ ev ∈ round t, brings peer ev.1 ev.2 = true}

/-- The peers with a payment in the last round that found no address to pay to. -/
def failedPeers (t : Trace PeerId) : Set PeerId :=
  {peer | ∃ ev ∈ round t, addressFails lib peer ev.1 ev.2 = true}

instance (peer : PeerId) (t : Trace PeerId) : Decidable (peer ∈ servingPeers t) :=
  inferInstanceAs (Decidable (∃ ev ∈ round t, brings peer ev.1 ev.2 = true))

instance (peer : PeerId) (t : Trace PeerId) : Decidable (peer ∈ failedPeers lib t) :=
  inferInstanceAs (Decidable (∃ ev ∈ round t, addressFails lib peer ev.1 ev.2 = true))

/-- Effects after which the same peers have failed and brought data, whatever the answer. -/
def Effect.Silent : Effect PeerId → Prop
  | .send .getConnectedPeers | .send (.getPeerSuiAddress _) => False
  | .await .. | .suiAddrCacheGet _ => False
  | _ => True

omit [DecidableEq PeerId] in
/-- Sending a fetch is silent. -/
theorem Effect.silent_send {cmd : P2pCommand PeerId} {proof : PaymentProof}
    (hproof : cmd.proof? = some proof) : (Effect.send cmd).Silent := by
  cases cmd <;> trivial

/-- Between the two histories, only the peers of `F` failed and only those of `D` brought
data. -/
structure Grows (F D : Set PeerId) (h h' : Trace PeerId) : Prop where
  failed : failedPeers lib h' ⊆ failedPeers lib h ∪ F
  serving : servingPeers h' ⊆ servingPeers h ∪ D

variable {lib} {F F' D D' : Set PeerId} {h h' h'' : Trace PeerId}

theorem Grows.refl : Grows lib F D h h :=
  ⟨Set.subset_union_left, Set.subset_union_left⟩

theorem Grows.trans (h₁ : Grows lib F D h h') (h₂ : Grows lib F D h' h'') :
    Grows lib F D h h'' := by
  constructor
  · calc failedPeers lib h'' ⊆ failedPeers lib h' ∪ F := h₂.failed
      _ ⊆ failedPeers lib h ∪ F ∪ F := Set.union_subset_union_left _ h₁.failed
      _ = failedPeers lib h ∪ F := by rw [Set.union_assoc, Set.union_self]
  · calc servingPeers h'' ⊆ servingPeers h' ∪ D := h₂.serving
      _ ⊆ servingPeers h ∪ D ∪ D := Set.union_subset_union_left _ h₁.serving
      _ = servingPeers h ∪ D := by rw [Set.union_assoc, Set.union_self]

theorem Grows.mono (hg : Grows lib F D h h') (hF : F ⊆ F') (hD : D ⊆ D') :
    Grows lib F' D' h h' :=
  ⟨hg.failed.trans (Set.union_subset_union_right _ hF),
    hg.serving.trans (Set.union_subset_union_right _ hD)⟩

/-- Nobody failed or brought data. -/
theorem Grows.of_empty (hg : Grows lib ∅ ∅ h h') : Grows lib F D h h' :=
  hg.mono (Set.empty_subset F) (Set.empty_subset D)

/-- One event. -/
theorem Grows.concat {e : Effect PeerId} {r : e.Ans} (hstart : e.startsRound = false)
    (hF : ∀ q, addressFails lib q e r = true → q ∈ F) (hD : ∀ q, brings q e r = true → q ∈ D) :
    Grows lib F D h (h ++ [⟨e, r⟩]) := by
  have hround : round (h ++ [⟨e, r⟩]) = round h ++ [⟨e, r⟩] := round_concat hstart
  constructor
  · rintro q ⟨ev, hev, hq⟩
    rw [hround, List.mem_append, List.mem_singleton] at hev
    rcases hev with hev | rfl
    · exact .inl ⟨ev, hev, hq⟩
    · exact .inr (hF q hq)
  · rintro q ⟨ev, hev, hq⟩
    rw [hround, List.mem_append, List.mem_singleton] at hev
    rcases hev with hev | rfl
    · exact .inl ⟨ev, hev, hq⟩
    · exact .inr (hD q hq)

/-- A silent event. -/
theorem Grows.silent {e : Effect PeerId} {r : e.Ans} (hg : Grows lib F D h h') (he : e.Silent) :
    Grows lib F D h (h' ++ [⟨e, r⟩]) := by
  refine hg.trans (Grows.concat ?_ (fun q hq => ?_) (fun q hq => ?_))
  · cases e with
    | send cmd => cases cmd <;> first | rfl | exact he.elim
    | _ => rfl
  · cases e with
    | send cmd => cases cmd <;> first | exact he.elim | cases hq
    | await | suiAddrCacheGet => exact he.elim
    | _ => cases hq
  · cases e with
    | await => exact he.elim
    | _ => cases hq

variable (lib) in
/-- A round that has just begun. -/
structure NewRound (t : Trace PeerId) : Prop where
  failed : ∀ q, q ∉ failedPeers lib t
  serving : ∀ q, q ∉ servingPeers t

theorem NewRound.of_start {ev : Event (@Effect.Ans PeerId)} (hstart : ev.1.startsRound = true) :
    NewRound lib (h ++ [ev]) := by
  constructor <;>
  · rintro q ⟨ev', hev, -⟩
    rw [round_start hstart] at hev
    cases hev

theorem NewRound.of_grows (hn : NewRound lib h) (hg : Grows lib ∅ ∅ h h') : NewRound lib h' := by
  constructor
  · intro q hq
    exact (hg.failed hq).elim (hn.failed q) id
  · intro q hq
    exact (hg.serving hq).elim (hn.serving q) id

end Round

/-! ### Payments -/

section Surfaced

variable (wallet : ZingWallet) (settlement : SettlementConfig) (lib : Externals PeerId)

/-- The proof is zero, or the digest of a payment executed before. -/
def Covered (t : Trace PeerId) (proof : PaymentProof) : Prop :=
  proof = zeroBytes32 ∨ Executed wallet settlement lib t proof

/-- The node lists each connected peer once. -/
def UniquePeers : (e : Effect PeerId) → e.Ans → Prop
  | .await .getConnectedPeers _, some l => @List.Nodup PeerId l
  | _, _ => True

/-- The contract to send no other proofs, when no attempt on chain fails. -/
def surfacedContract : Contract (@Effect.Ans PeerId) where
  rely _ e r := ¬ AttemptFails wallet settlement lib e r ∧ UniquePeers e r
  guarantee h e := ∀ proof, e.proof? = some proof → Covered wallet settlement lib h proof
  mayPanic := True

variable {wallet settlement lib} {self : Resolver PeerId} {blobId : BlobId} {key : String}
  {h : Trace PeerId}

theorem Covered.mono {h' : Trace PeerId} {proof : PaymentProof} (hpre : h <+: h')
    (hc : Covered wallet settlement lib h proof) : Covered wallet settlement lib h' proof := by
  rcases hc with hzero | ⟨recipient, blobHash, amount, o, hmem, hreceipt⟩
  · exact .inl hzero
  · exact .inr ⟨recipient, blobHash, amount, o, hpre.subset hmem, hreceipt⟩

theorem inquiring_surfaced :
    Inquiring (surfacedContract wallet settlement lib) where
  benign _ _ _ hnone _ _ hsome := by
    rw [hnone] at hsome
    cases hsome

/-- An effect that sends no proof meets the guarantee. -/
theorem guarantee_of_none {e : Effect PeerId} (hnone : e.proof? = none) :
    (surfacedContract wallet settlement lib).guarantee h e := by
  intro proof hsome
  rw [hnone] at hsome
  cases hsome

variable [DecidableEq PeerId]

/-- `pay_wal` yields the digest of the payment. -/
theorem payWal_surfaced (hs : wallet.settlement = some settlement) (recipient : Address)
    (blobHash : Bytes32) (amount : ℕ) :
    Meets (surfacedContract wallet settlement lib) h
      (wallet.payWal lib recipient blobHash amount) fun h' r =>
        Grows lib ∅ ∅ h h' ∧ ∃ d, r = .ok d ∧ Executed wallet settlement lib h' d := by
  rw [ZingWallet.payWal, hs]
  refine ⟨guarantee_of_none rfl, fun o ho => ?_⟩
  have hattempt : ∀ err, wallet.tryOnchainPay lib settlement recipient blobHash amount o
      ≠ some (.error err) := fun err herr => ho.1 ⟨err, herr⟩
  show Meets _ _ (finishPayment lib recipient blobHash amount
    (wallet.tryOnchainPay lib settlement recipient blobHash amount o)) _
  rcases htry : wallet.tryOnchainPay lib settlement recipient blobHash amount o
    with - | err | d
  · trivial
  · exact absurd htry (hattempt err)
  · refine ⟨guarantee_of_none rfl, fun c _ => ⟨(Grows.refl.silent (by trivial)).silent (by trivial),
      d, rfl, recipient, blobHash, amount, o, ?_,
      ZingWallet.tryOnchainPay_eq_ok_iff.mp htry⟩⟩
    exact List.mem_append_left _ (List.mem_append_right _ List.mem_cons_self)

/-- Paying an address: when it is not a Sui address there is an error. -/
theorem payAddress_surfaced (hs : wallet.settlement = some settlement) (invalid : String)
    (addr blobHash : Bytes32) (amount : ℕ) :
    Meets (surfacedContract wallet settlement lib) h
      (payAddress lib wallet invalid addr blobHash amount) fun h' payment =>
        Grows lib ∅ ∅ h h' ∧ Covered wallet settlement lib h' payment.1 ∧
          (badAddress lib (some addr) = true → payment.2.isSome) := by
  rw [payAddress]
  rcases haddr : lib.addressFromBytes addr with e | recipient
  · exact ⟨.refl, .inl rfl, fun _ => rfl⟩
  · refine (payWal_surfaced hs recipient blobHash amount).bind ?_
    rintro h' - - ⟨hgrows, d, rfl, hexecuted⟩
    refine ⟨hgrows, .inr hexecuted, ?_⟩
    simp [badAddress, haddr, Except.isOk, Except.toBool]

/-- Asking for the peer's vault is silent. -/
theorem queryVault_surfaced (peer : PeerId) :
    Meets (surfacedContract wallet settlement lib) h (queryVault peer)
      fun h' _ => Grows lib ∅ ∅ h h' := by
  refine ⟨guarantee_of_none rfl, fun known _ => ?_⟩
  cases known with
  | true => exact Grows.refl.silent (by trivial)
  | false =>
      refine ⟨guarantee_of_none rfl, fun _ _ => ⟨guarantee_of_none rfl, fun _ _ => ?_⟩⟩
      exact ((Grows.refl.silent (by trivial)).silent (by trivial)).silent (by trivial)

/-- **One payment**: when it finds no address to pay to there is an error, and its proof is
zero or the digest of the payment. -/
theorem resolvePayment_surfaced (hw : self.wallet = some wallet)
    (hs : wallet.settlement = some settlement) (peer : PeerId) (blobHash : Bytes32)
    (amount : ℕ) :
    Meets (surfacedContract wallet settlement lib) h
      (self.resolvePayment lib peer blobHash amount) fun h' payment =>
        Grows lib {q | q = peer ∧ payment.2.isSome} ∅ h h' ∧
          Covered wallet settlement lib h' payment.1 := by
  rw [resolvePayment, hw]
  refine ⟨guarantee_of_none rfl, fun cached _ => ?_⟩
  rcases cached with - | - | addr
  · have hasked : ∀ {F : Set PeerId}, Grows lib F ∅ h (h ++ [⟨.suiAddrCacheGet peer, none⟩]) :=
      Grows.concat rfl (by rintro q ⟨⟩) (by rintro q ⟨⟩)
    refine ⟨guarantee_of_none rfl, fun sent _ => ?_⟩
    cases sent with
    | false =>
        refine ⟨guarantee_of_none rfl, fun _ _ => ⟨?_, .inl rfl⟩⟩
        refine (hasked.trans (Grows.concat rfl ?_ (by rintro q ⟨⟩))).silent (by trivial)
        intro q hq
        exact ⟨(of_decide_eq_true (Bool.and_eq_true_iff.mp hq).1).symm, rfl⟩
    | true =>
        have hsent : ∀ {F : Set PeerId}, Grows lib F ∅ h (h ++ [⟨.suiAddrCacheGet peer, none⟩]
            ++ [⟨.send (.getPeerSuiAddress peer), true⟩]) := by
          refine hasked.trans (Grows.concat rfl (fun q hq => ?_) (by rintro q ⟨⟩))
          exact absurd (Bool.and_eq_true_iff.mp hq).2 (by simp)
        refine ⟨guarantee_of_none rfl, fun reply _ => ⟨guarantee_of_none rfl, fun _ _ => ?_⟩⟩
        refine (queryVault_surfaced peer).bind fun h₁ _ _ hvault => ?_
        -- the reply counts as failed only if the payment then has an error
        have hreply : ∀ {err : Option String}, (badAddress lib (Option.join reply) = true →
            err.isSome) → Grows lib {q | q = peer ∧ err.isSome} ∅ h h₁ := by
          intro err herr
          refine ((hsent.trans (Grows.concat rfl ?_ (by rintro q ⟨⟩))).silent (by trivial)).trans
            hvault.of_empty
          intro q hq
          obtain ⟨hpeer, hbad⟩ := Bool.and_eq_true_iff.mp hq
          exact ⟨(of_decide_eq_true hpeer).symm, herr hbad⟩
        rcases hjoin : Option.join reply with - | addr
        · exact ⟨hreply fun _ => rfl, .inl rfl⟩
        · rw [hjoin] at hreply
          refine (payAddress_surfaced hs _ addr blobHash amount).mono ?_
          rintro h' payment - ⟨hgrows, hcovered, herr⟩
          exact ⟨(hreply herr).trans hgrows.of_empty, hcovered⟩
  · exact ⟨Grows.concat rfl (by rintro q ⟨⟩) (by rintro q ⟨⟩), .inl rfl⟩
  · refine (payAddress_surfaced hs _ addr blobHash amount).mono ?_
    rintro h' payment - ⟨hgrows, hcovered, herr⟩
    refine ⟨(Grows.concat rfl ?_ (by rintro q ⟨⟩)).trans hgrows.of_empty, hcovered⟩
    intro q hq
    obtain ⟨hpeer, hbad⟩ := Bool.and_eq_true_iff.mp hq
    exact ⟨(of_decide_eq_true hpeer).symm, herr hbad⟩

/-! ### Fetches -/

omit [DecidableEq PeerId] in
/-- A command with a proof asks no peer for its address. -/
theorem addressFails_await [DecidableEq PeerId] {cmd : P2pCommand PeerId} {proof : PaymentProof}
    (hproof : cmd.proof? = some proof) {timeout : Option ℕ} {q : PeerId}
    {r : (Effect.await cmd timeout).Ans} :
    addressFails lib q (.await cmd timeout) r = false := by
  cases cmd <;> first | rfl | cases hproof

/-- Awaiting the data of a fetch. -/
theorem awaitData_surfaced {cmd : P2pCommand PeerId} {proof : PaymentProof} {peer : PeerId}
    (hproof : cmd.proof? = some proof) (hsource : cmd.source? = some peer) (timeout : ℕ) :
    Meets (surfacedContract wallet settlement lib) h (awaitData cmd timeout) fun h' reply =>
      Grows lib ∅ {q | q = peer ∧ reply.isSome} h h' := by
  refine ⟨guarantee_of_none rfl, fun reply _ => Grows.concat rfl ?_ ?_⟩
  · intro q hq
    rw [addressFails_await hproof] at hq
    cases hq
  · intro q hq
    obtain ⟨hq, hdata⟩ := Bool.and_eq_true_iff.mp hq
    have heq : some peer = some q := hsource.symm.trans (of_decide_eq_true hq)
    exact ⟨(Option.some.inj heq).symm, hdata⟩

/-- A fetch with a covered proof: nobody but the peer asked brings data. -/
theorem fetch_surfaced {cmd : P2pCommand PeerId} {proof : PaymentProof} (peer : PeerId)
    (hproof : cmd.proof? = some proof) (hsource : cmd.source? = some peer)
    (hcovered : Covered wallet settlement lib h proof) :
    Meets (surfacedContract wallet settlement lib) h (fetch cmd) fun h' reply =>
      Grows lib ∅ {q | q = peer ∧ reply.isSome} h h' := by
  refine ⟨fun proof' hsome => ?_, fun sent _ => ?_⟩
  · obtain rfl : proof = proof' := Option.some.inj (hproof.symm.trans hsome)
    exact hcovered
  · have hsent : ∀ {D : Set PeerId}, Grows lib ∅ D h (h ++ [⟨.send cmd, sent⟩]) :=
      Grows.refl.silent (Effect.silent_send hproof)
    cases sent with
    | false => exact hsent
    | true =>
        refine (awaitData_surfaced hproof hsource 30).mono ?_
        rintro h' reply - hgrows
        exact hsent.trans hgrows

/-! ### Strategies that ask one peer after the other -/

variable (lib) in
/-- So far nobody has brought data, and none of the peers still to come has failed. -/
structure Untouched (rest : List PeerId) (t : Trace PeerId) : Prop where
  serving : ∀ q, q ∉ servingPeers t
  failed : ∀ q ∈ rest, q ∉ failedPeers lib t

variable (lib) in
/-- Only the peer has brought data, and if a payment for it failed there is an error. -/
structure ServedBy (peer : PeerId) (err : Option String) (t : Trace PeerId) : Prop where
  serving : ∀ q ∈ servingPeers t, q = peer
  failed : peer ∈ failedPeers lib t → err.isSome

variable (lib) in
/-- If a payment for a peer that brought data failed, there is an error. -/
def Reported (t : Trace PeerId) (err : Option String) : Prop :=
  ∀ q ∈ servingPeers t, q ∈ failedPeers lib t → err.isSome

theorem ServedBy.reported {peer : PeerId} {err : Option String} (hs : ServedBy lib peer err h) :
    Reported lib h err := by
  intro q hserving hfailed
  obtain rfl := hs.serving q hserving
  exact hs.failed hfailed

theorem Reported.of_grows {err : Option String} {h' : Trace PeerId} (hr : Reported lib h err)
    (hg : Grows lib ∅ ∅ h h') : Reported lib h' err := by
  intro q hserving hfailed
  exact hr q ((hg.serving hserving).resolve_right id) ((hg.failed hfailed).resolve_right id)

/-- An earlier error stays. -/
theorem isSome_orElse {e e' : Option String} (h : e.isSome ∨ e'.isSome) :
    (e <|> e').isSome := by
  cases e with
  | some s => rfl
  | none => simpa using h

/-- **A payment and a fetch**: without data the loop goes on as before, and with data the
peer is the only one that brought some. -/
theorem payThenFetch (hw : self.wallet = some wallet) (hs : wallet.settlement = some settlement)
    {peer : PeerId} {rest : List PeerId} (hnodup : (peer :: rest).Nodup)
    (hu : Untouched lib (peer :: rest) h) (cmd : PaymentProof → P2pCommand PeerId)
    (hproof : ∀ proof, (cmd proof).proof? = some proof)
    (hsource : ∀ proof, (cmd proof).source? = some peer) (blobHash : Bytes32) (amount : ℕ) :
    Meets (surfacedContract wallet settlement lib) h
      (self.resolvePayment lib peer blobHash amount) fun h₁ payment =>
        Meets (surfacedContract wallet settlement lib) h₁ (fetch (cmd payment.1))
          fun h₂ reply => (reply = none → Untouched lib rest h₂) ∧
            (reply.isSome → ServedBy lib peer payment.2 h₂) := by
  refine (resolvePayment_surfaced hw hs peer blobHash amount).mono ?_
  rintro h₁ payment - ⟨hpaid, hcovered⟩
  refine (fetch_surfaced peer (hproof _) (hsource _) hcovered).mono ?_
  rintro h₂ reply - hfetched
  have hserving : ∀ q ∈ servingPeers h₂, q = peer ∧ reply.isSome := by
    intro q hq
    rcases hfetched.serving hq with hq | hq
    · rcases hpaid.serving hq with hq | hq
      · exact absurd hq (hu.serving q)
      · exact hq.elim
    · exact hq
  have hfailed : ∀ q ∈ failedPeers lib h₂,
      q ∈ failedPeers lib h ∨ (q = peer ∧ payment.2.isSome) := fun q hq =>
    hpaid.failed ((hfetched.failed hq).resolve_right id)
  constructor
  · rintro rfl
    refine ⟨fun q hq => by simpa using (hserving q hq).2, fun q hq hbad => ?_⟩
    rcases hfailed q hbad with hold | ⟨rfl, -⟩
    · exact hu.failed q (List.mem_cons_of_mem _ hq) hold
    · exact (List.nodup_cons.mp hnodup).1 hq
  · intro hsome
    refine ⟨fun q hq => (hserving q hq).1, fun hbad => ?_⟩
    rcases hfailed peer hbad with hold | ⟨-, herr⟩
    · exact absurd hold (hu.failed peer List.mem_cons_self)
    · exact herr

/-- A strategy has no result, or one with an error if a payment failed. -/
def Surfaced (lib : Externals PeerId) (t : Trace PeerId) (r : L1Result) : Prop :=
  ∀ res, r = some (.ok res) → Reported lib t res.paymentError

theorem surfaced_none : Surfaced lib h none := by
  rintro res ⟨⟩

/-- The end of a fetch keeps the error. -/
theorem finalizeL1Fetch_surfaced {peer : PeerId} {data : Bytes} {err : Option String}
    (hr : Reported lib h err) :
    Meets (surfacedContract wallet settlement lib) h
      (finalizeL1Fetch lib blobId key peer data err) (Surfaced lib) := by
  rw [finalizeL1Fetch]
  split
  · exact ⟨guarantee_of_none rfl, fun _ _ => surfaced_none⟩
  · refine ⟨guarantee_of_none rfl, fun _ _ => ⟨guarantee_of_none rfl, fun _ _ =>
      ⟨guarantee_of_none rfl, fun _ _ => ?_⟩⟩⟩
    rintro res ⟨⟩
    exact hr.of_grows (((Grows.refl.silent (by trivial)).silent (by trivial)).silent (by trivial))

/-- Whole blobs from one peer after the other. -/
theorem directPeersLoop_surfaced (hw : self.wallet = some wallet)
    (hs : wallet.settlement = some settlement) {l : List PeerId} (hnodup : l.Nodup)
    (hu : Untouched lib l h) :
    Meets (surfacedContract wallet settlement lib) h (self.directPeersLoop lib blobId key l)
      (Surfaced lib) := by
  induction l generalizing h with
  | nil => exact surfaced_none
  | cons peer rest ih =>
      refine (payThenFetch hw hs hnodup hu (.fetchBlob peer blobId.bytes ·) (fun _ => rfl)
        (fun _ => rfl) _ _).bind fun h₁ payment _ hfetch => ?_
      refine hfetch.bind fun h₂ reply _ ⟨hnone, hsome⟩ => ?_
      rcases reply with - | data
      · exact ih (List.nodup_cons.mp hnodup).2 (hnone rfl)
      · exact finalizeL1Fetch_surfaced (hsome rfl).reported

/-- The further chunks of one peer: the errors are merged. -/
theorem rangeChunks_surfaced (hw : self.wallet = some wallet)
    (hs : wallet.settlement = some settlement) {peer : PeerId} {fuel offset : ℕ} {data : Bytes}
    {err : Option String} (hserved : ServedBy lib peer err h) :
    Meets (surfacedContract wallet settlement lib) h
      (self.rangeChunks lib blobId peer fuel offset data err) fun h' r =>
        ∀ x, r = some x → Reported lib h' x.2 := by
  induction fuel generalizing h offset data err with
  | zero => trivial
  | succ fuel ih =>
      rw [rangeChunks]
      split
      · rintro x ⟨⟩
      refine (resolvePayment_surfaced hw hs peer _ _).bind ?_
      rintro h₁ payment - ⟨hpaid, hcovered⟩
      refine (fetch_surfaced peer rfl rfl hcovered).bind ?_
      rintro h₂ reply - hfetched
      have hserved' : ServedBy lib peer (err <|> payment.2) h₂ := by
        constructor
        · intro q hq
          rcases hfetched.serving hq with hq | ⟨hq, -⟩
          · exact hserved.serving q ((hpaid.serving hq).resolve_right id)
          · exact hq
        · intro hbad
          refine isSome_orElse ?_
          rcases hpaid.failed ((hfetched.failed hbad).resolve_right id) with hold | ⟨-, herr⟩
          · exact .inl (hserved.failed hold)
          · exact .inr herr
      rcases reply with - | nextChunk
      · rintro x ⟨⟩
        exact hserved'.reported
      · refine Meets.ite (fun hempty => ?_) fun hnonempty => ?_
        · rintro x ⟨⟩
          exact hserved'.reported
        · split
          · rintro x ⟨⟩
            exact hserved'.reported
          · exact ih hserved'

/-- Ranges from one peer after the other. -/
theorem directPeersRangeLoop_surfaced (hw : self.wallet = some wallet)
    (hs : wallet.settlement = some settlement) {l : List PeerId} (hnodup : l.Nodup)
    (hu : Untouched lib l h) :
    Meets (surfacedContract wallet settlement lib) h
      (self.directPeersRangeLoop lib blobId key l) (Surfaced lib) := by
  induction l generalizing h with
  | nil => exact surfaced_none
  | cons peer rest ih =>
      refine (payThenFetch hw hs hnodup hu (.fetchRange peer blobId.bytes 0 rangeChunk ·)
        (fun _ => rfl) (fun _ => rfl) _ _).bind fun h₁ payment _ hfetch => ?_
      refine hfetch.bind fun h₂ reply _ ⟨hnone, hsome⟩ => ?_
      rcases reply with - | chunk
      · exact ih (List.nodup_cons.mp hnodup).2 (hnone rfl)
      · refine Meets.ite (fun hshort => ?_) fun hfull => ?_
        · exact finalizeL1Fetch_surfaced (hsome rfl).reported
        · refine (rangeChunks_surfaced hw hs (hsome rfl)).bind fun h₃ assembled _ hreported => ?_
          rcases assembled with - | ⟨data, err⟩
          · exact surfaced_none
          · exact finalizeL1Fetch_surfaced (hreported _ rfl)

/-! ### Strategies that ask several peers at once -/

variable (lib) in
/-- If any payment of the round failed, there is an error. -/
def AllReported (t : Trace PeerId) (err : Option String) : Prop :=
  ∀ q ∈ failedPeers lib t, err.isSome

theorem AllReported.reported {err : Option String} (hr : AllReported lib h err) :
    Reported lib h err := fun q _ hfailed => hr q hfailed

theorem AllReported.of_subset {err : Option String} {h' : Trace PeerId}
    (hr : AllReported lib h err) (hsub : failedPeers lib h' ⊆ failedPeers lib h) :
    AllReported lib h' err := fun q hq => hr q (hsub hq)

omit [DecidableEq PeerId] in
/-- The first error of some payments and one more. -/
theorem firstError_concat (payments : List (PaymentProof × Option String))
    (payment : PaymentProof × Option String) :
    firstError (payments ++ [payment]) = (firstError payments <|> payment.2) := by
  rw [firstError, firstError, List.findSome?_append, List.findSome?_singleton]
  cases payments.findSome? Prod.snd <;> rfl

/-- **A payment for each of some peers**: the first error is merged, and every proof is
covered. -/
theorem payAll (hw : self.wallet = some wallet) (hs : wallet.settlement = some settlement)
    (l : List PeerId) (blobHash : Bytes32) (amount : ℕ) {err : Option String}
    (hr : AllReported lib h err) :
    Meets (surfacedContract wallet settlement lib) h
      (l.mapM fun peer => self.resolvePayment lib peer blobHash amount) fun h' payments =>
        AllReported lib h' (err <|> firstError payments) ∧
          ∀ payment ∈ payments, Covered wallet settlement lib h' payment.1 := by
  have hstart : AllReported lib h (err <|> firstError []) := fun q hq =>
    isSome_orElse (.inl (hr q hq))
  refine meets_mapM_acc (J := fun payments _ h' =>
    AllReported lib h' (err <|> firstError payments) ∧
      ∀ payment ∈ payments, Covered wallet settlement lib h' payment.1)
    [] ?_ ⟨hstart, by simp⟩
  rintro payments peer rest h₁ ⟨hr₁, hcovered₁⟩
  refine (resolvePayment_surfaced hw hs peer blobHash amount).mono ?_
  rintro h₂ payment hpre ⟨hpaid, hcovered⟩
  constructor
  · intro q hq
    have hmerged : (err <|> firstError (payments ++ [payment]))
        = ((err <|> firstError payments) <|> payment.2) := by
      rw [firstError_concat]
      cases err <;> rfl
    rw [hmerged]
    refine isSome_orElse ?_
    rcases hpaid.failed hq with hold | ⟨-, herr⟩
    · exact .inl (hr₁ q hold)
    · exact .inr herr
  · intro payment' hmem
    rcases List.mem_append.mp hmem with hmem | hmem
    · exact (hcovered₁ payment' hmem).mono hpre
    · obtain rfl := List.mem_singleton.mp hmem
      exact hcovered

/-- **Requests to several peers**, each with a covered proof: no payment fails. -/
theorem askAll {α : Type} (l : List (α × P2pCommand PeerId))
    (hl : ∀ x ∈ l, ∃ peer proof, x.2.source? = some peer ∧ x.2.proof? = some proof ∧
      Covered wallet settlement lib h proof) (timeout : ℕ) :
    Meets (surfacedContract wallet settlement lib) h (sendAll l) fun h₁ pending =>
      Meets (surfacedContract wallet settlement lib) h₁
        (pending.mapM (awaitNonempty timeout)) fun h₂ _ =>
          failedPeers lib h₂ ⊆ failedPeers lib h := by
  have hsend : Meets (surfacedContract wallet settlement lib) h (sendAll l) fun h₁ pending =>
      Grows lib ∅ ∅ h h₁ ∧ ∀ x ∈ pending, x ∈ l := by
    clear timeout
    induction l generalizing h with
    | nil => exact ⟨.refl, by simp⟩
    | cons x rest ih =>
        obtain ⟨peer, proof, -, hproof, hcovered⟩ := hl x List.mem_cons_self
        refine ⟨fun proof' hsome => ?_, fun sent _ => ?_⟩
        · obtain rfl : proof = proof' := Option.some.inj (hproof.symm.trans hsome)
          exact hcovered
        refine (ih fun y hy => ?_).bind ?_
        · obtain ⟨peer, proof, hsource, hproof, hcovered⟩ := hl y (List.mem_cons_of_mem _ hy)
          exact ⟨peer, proof, hsource, hproof, hcovered.mono (List.prefix_append _ _)⟩
        rintro h₁ later - ⟨hgrows, hsub⟩
        refine ⟨(Grows.refl.silent (Effect.silent_send hproof)).trans hgrows, ?_⟩
        cases sent with
        | true =>
            intro y hy
            rcases List.mem_cons.mp hy with rfl | hy
            · exact List.mem_cons_self
            · exact List.mem_cons_of_mem _ (hsub y hy)
        | false => exact fun y hy => List.mem_cons_of_mem _ (hsub y hy)
  refine hsend.mono ?_
  rintro h₁ pending - ⟨hsent, hsub⟩
  refine (meets_mapM (J := fun xs h' => (∀ x ∈ xs, x ∈ l) ∧ Grows lib ∅ Set.univ h₁ h')
    (P := fun _ _ => True) ?_ ⟨hsub, .refl⟩).mono ?_
  · rintro x xs h' ⟨hxs, hgrows⟩
    obtain ⟨peer, proof, hsource, hproof, -⟩ := hl x (hxs x List.mem_cons_self)
    refine (awaitData_surfaced hproof hsource timeout).bind ?_
    rintro h'' reply - hawaited
    have hgrows' : Grows lib ∅ Set.univ h₁ h'' :=
      hgrows.trans (hawaited.mono (Set.empty_subset _) (Set.subset_univ _))
    have hxs' : ∀ y ∈ xs, y ∈ l := fun y hy => hxs y (List.mem_cons_of_mem _ hy)
    rcases reply with - | data
    · exact ⟨⟨hxs', hgrows'⟩, trivial⟩
    · show Meets _ h'' (if data.isEmpty then _ else _) _
      split <;> exact ⟨⟨hxs', hgrows'⟩, trivial⟩
  · rintro h₂ responses - ⟨⟨-, hgrows⟩, -⟩ q hq
    exact (hsent.failed ((hgrows.failed hq).resolve_right id)).resolve_right id

/-- The window loop: the errors of all windows are merged. -/
theorem rangeWindows_surfaced (hw : self.wallet = some wallet)
    (hs : wallet.settlement = some settlement) {lead : PeerId} {others : List PeerId}
    {fuel window : ℕ} {data : Bytes} {err : Option String} (hr : AllReported lib h err) :
    Meets (surfacedContract wallet settlement lib) h
      (self.rangeWindows lib blobId key lead others fuel window data err) (Surfaced lib) := by
  induction fuel generalizing h window data err with
  | zero => trivial
  | succ fuel ih =>
      rw [rangeWindows_succ]
      refine (payAll hw hs _ _ _ hr).bind ?_
      rintro h₁ payments - ⟨hr₁, hcovered⟩
      refine (askAll _ ?_ 30).bind fun h₂ pending _ hawait => ?_
      · intro x hx
        obtain ⟨pair, hpair, hrequest⟩ := exists_of_mem_chunkRequests hx
        obtain ⟨payment, hpayment, hproof⟩ := List.mem_map.mp (List.of_mem_zip hpair).2
        refine ⟨pair.1, pair.2, by rw [hrequest]; rfl, by rw [hrequest]; rfl, ?_⟩
        rw [← hproof]
        exact hcovered payment hpayment
      refine hawait.bind fun h₃ responses _ hsub => ?_
      have hr₃ := hr₁.of_subset hsub
      exact meets_afterWindow surfaced_none
        (fun _ => finalizeL1Fetch_surfaced hr₃.reported) fun _ => ih hr₃

/-! ### The start of a strategy -/

/-- The connected peers: a new round begins. -/
theorem connectedPeers_surfaced :
    Meets (surfacedContract wallet settlement lib) h (@connectedPeers PeerId) fun h' l =>
      NewRound lib h' ∧ l.Nodup := by
  refine ⟨guarantee_of_none rfl, fun sent _ => ?_⟩
  have hnew : ∀ {h : Trace PeerId}, NewRound lib (h ++ [⟨.send .getConnectedPeers, sent⟩]) :=
    NewRound.of_start rfl
  cases sent with
  | false => exact ⟨hnew, List.nodup_nil⟩
  | true =>
      refine ⟨guarantee_of_none rfl, fun reply hreply => ?_⟩
      refine ⟨hnew.of_grows (Grows.concat rfl (by rintro q ⟨⟩) (by rintro q ⟨⟩)), ?_⟩
      rcases reply with - | l
      · exact List.nodup_nil
      · exact hreply.2

/-- A poll that finds a provider has just begun a new round. -/
theorem pollConnected_surfaced (dhtPeers : List PeerId) (iterations : ℕ) :
    Meets (surfacedContract wallet settlement lib) h (pollConnected dhtPeers iterations)
      fun h' polled => polled.isSome → NewRound lib h' := by
  induction iterations generalizing h with
  | zero => rintro ⟨⟩
  | succ iterations ih =>
      refine ⟨guarantee_of_none rfl, fun _ _ => ⟨guarantee_of_none rfl, fun sent _ => ?_⟩⟩
      have hnew : ∀ {h : Trace PeerId},
          NewRound lib (h ++ [⟨.send .getConnectedPeers, sent⟩]) := NewRound.of_start rfl
      cases sent with
      | false => rintro ⟨⟩
      | true =>
          refine ⟨guarantee_of_none rfl, fun reply _ => ?_⟩
          dsimp only [Prog.bind]
          split
          · intro _
            exact hnew.of_grows (Grows.concat rfl (by rintro q ⟨⟩) (by rintro q ⟨⟩))
          · exact ih

theorem NewRound.untouched (hn : NewRound lib h) (l : List PeerId) : Untouched lib l h :=
  ⟨hn.serving, fun q _ => hn.failed q⟩

/-! ### The resolve -/

/-- The parallel strategy. -/
theorem tryDirectPeersRangeParallel_surfaced (hw : self.wallet = some wallet)
    (hs : wallet.settlement = some settlement) :
    Meets (surfacedContract wallet settlement lib) h
      (self.tryDirectPeersRangeParallel lib blobId key) (Surfaced lib) := by
  refine connectedPeers_surfaced.bind ?_
  rintro h₁ connected - ⟨hnew, -⟩
  refine Meets.ite (fun hempty => ?_) fun hnonempty => ?_
  · exact surfaced_none
  have hr : AllReported lib h₁ none := fun q hq => absurd hq (hnew.failed q)
  refine (payAll hw hs _ _ _ hr).bind ?_
  rintro h₂ payments - ⟨hr₂, hcovered⟩
  refine (askAll _ ?_ 5).bind fun h₃ probes _ hawait => ?_
  · intro x hx
    obtain ⟨pair, hpair, rfl⟩ := List.mem_map.mp hx
    obtain ⟨payment, hpayment, hproof⟩ := List.mem_map.mp (List.of_mem_zip hpair).2
    exact ⟨pair.1, pair.2, rfl, rfl, hproof ▸ hcovered payment hpayment⟩
  refine hawait.bind fun h₄ answers _ hsub => ?_
  rcases answers.reduceOption.map Prod.fst with - | ⟨lead, others⟩
  · exact surfaced_none
  · exact rangeWindows_surfaced hw hs (hr₂.of_subset hsub)

/-- The DHT strategy. -/
theorem tryProviders_surfaced (hw : self.wallet = some wallet)
    (hs : wallet.settlement = some settlement) :
    Meets (surfacedContract wallet settlement lib) h (self.tryProviders lib blobId key)
      (Surfaced lib) := by
  have hq : Inquiring (surfacedContract wallet settlement lib) := inquiring_surfaced
  have hproviders : ∀ h l, Meets (surfacedContract wallet settlement lib) h
      (self.fetchFromProviders lib blobId key l) (Surfaced lib) := by
    intro h l
    refine (hq.dialProviders_bound (P := 0) l).meets.bind fun h₁ _ _ _ => ?_
    refine (hq.queryAndDial_bound (P := 0) l).meets.bind fun h₂ _ _ _ => ?_
    refine (pollConnected_surfaced l _).bind fun h₃ polled _ hnew => ?_
    rcases polled with - | peer
    · exact surfaced_none
    · have hu : Untouched lib [peer] h₃ := (hnew rfl).untouched _
      refine (payThenFetch hw hs (List.nodup_singleton peer) hu
        (.fetchBlob peer blobId.bytes ·) (fun _ => rfl) (fun _ => rfl) _ _).bind
          fun h₄ payment _ hfetch => ?_
      refine hfetch.bind fun h₅ reply _ ⟨_, hsome⟩ => ?_
      rcases reply with - | data
      · exact surfaced_none
      · exact finalizeL1Fetch_surfaced (hsome rfl).reported
  refine (hq.runFindProviders_bound (P := 0)).meets.bind fun h₁ found _ _ => ?_
  refine Meets.ite (fun hempty => ?_) fun hnonempty => ?_
  · refine (hq.retryFindProviders_bound (P := 0) 3).meets.bind fun h₂ retried _ _ => ?_
    refine Meets.ite (fun hempty => ?_) fun hnonempty => ?_
    · exact surfaced_none
    · exact hproviders h₂ retried
  · exact hproviders h₁ _

/-- The next strategy runs only after one without a result. -/
theorem orElse_surfaced {first next : Action PeerId L1Result}
    (hfirst : Meets (surfacedContract wallet settlement lib) h first (Surfaced lib))
    (hnext : ∀ h, Meets (surfacedContract wallet settlement lib) h next (Surfaced lib)) :
    Meets (surfacedContract wallet settlement lib) h (orElse first next) (Surfaced lib) :=
  meets_orElse (hfirst.mono fun h' _ _ hr => ⟨fun _ => hnext h', fun _ => hr⟩)

/-- The four strategies over peers. -/
theorem resolveFromL1_surfaced (hw : self.wallet = some wallet)
    (hs : wallet.settlement = some settlement) :
    Meets (surfacedContract wallet settlement lib) h (self.resolveFromL1 lib blobId key)
      (Surfaced lib) := by
  refine orElse_surfaced (tryDirectPeersRangeParallel_surfaced hw hs) fun h => ?_
  refine orElse_surfaced ?_ fun h => ?_
  · refine connectedPeers_surfaced.bind ?_
    rintro h₁ connected - ⟨hnew, hnodup⟩
    exact directPeersRangeLoop_surfaced hw hs hnodup (hnew.untouched _)
  refine orElse_surfaced ?_ fun h => tryProviders_surfaced hw hs
  refine connectedPeers_surfaced.bind ?_
  rintro h₁ connected - ⟨hnew, hnodup⟩
  exact directPeersLoop_surfaced hw hs hnodup (hnew.untouched _)

omit [DecidableEq PeerId] in
/-- Walrus is not a peer. -/
theorem resolveFromWalrus_surfaced :
    Meets (surfacedContract wallet settlement lib) h
      (resolveFromWalrus blobId key : Action PeerId _) fun _ r =>
        ∀ res, r = .ok res → res.resolution ≠ .l1Peer := by
  refine meets_resolveFromWalrus (guarantee_of_none rfl)
    (fun data _ => ⟨guarantee_of_none rfl, ?_⟩) (fun _ => guarantee_of_none rfl) ?_
  · rintro h' res ⟨⟩ ⟨⟩
  · rintro h' e res ⟨⟩

/-- **When no attempt on chain fails**, every proof sent is covered, and a resolve from a
peer reports a failed payment for it. -/
theorem resolve_surfaced (hw : self.wallet = some wallet)
    (hs : wallet.settlement = some settlement) :
    Meets (surfacedContract wallet settlement lib) h (self.resolve lib blobId) fun h' r =>
      ∀ res, r = .ok res → res.resolution = .l1Peer → Reported lib h' res.paymentError := by
  have hwalrus : ∀ h key, Meets (surfacedContract wallet settlement lib) h
      (resolveFromWalrus blobId key : Action PeerId _) fun h' r =>
        ∀ res, r = .ok res → res.resolution = .l1Peer → Reported lib h' res.paymentError :=
    fun h key => resolveFromWalrus_surfaced.mono fun h' r _ hne res hres hl1 =>
      absurd hl1 (hne res hres)
  refine meets_resolve (guarantee_of_none rfl) ?_ ?_ fun _ => ?_
  · rintro e _ res ⟨⟩
  · rintro data _ res ⟨⟩ ⟨⟩
  · refine meets_resolveUncached (resolveFromL1_surfaced hw hs) ?_ (fun h' _ => hwalrus h' _)
      fun _ => hwalrus _ _
    rintro h' _ hsurfaced res rfl -
    exact hsurfaced res rfl

end Surfaced

/-! ### The promises -/

section Promises

variable [DecidableEq PeerId] {wallet : ZingWallet} {settlement : SettlementConfig}

/-- **Failed payments are surfaced**, as far as the attempts on chain succeed. `pay_wal`
yields nothing but digests of executed payments exactly when its attempt does not fail. In
a resolve without a failed attempt every proof sent is zero or the digest of a payment
executed before; and if it ends with data from peers, and in the last round no address was
found for a payment to a peer that brought data, there is a payment error. A payment that is
skipped because the peer is remembered as one without an address counts only behind such a
lookup. -/
theorem payment_surfaced (lib : Externals PeerId) (hs : wallet.settlement = some settlement) :
    (∀ recipient blobHash amount t r,
      (wallet.payWal lib recipient blobHash amount).Runs t r →
        ((∀ d, r = some (.ok d) → Executed wallet settlement lib t d) ↔
          ∀ ev ∈ t, ¬ AttemptFails wallet settlement lib ev.1 ev.2)) ∧
    ∀ (self : Resolver PeerId) blobId t r, self.wallet = some wallet →
      (self.resolve lib blobId).Runs t r →
      (∀ ev ∈ t, UniquePeers ev.1 ev.2) →
      (∀ ev ∈ t, ¬ AttemptFails wallet settlement lib ev.1 ev.2) →
        (∀ pre ev post proof, t = pre ++ ev :: post → ev.1.proof? = some proof →
          proof = zeroBytes32 ∨ Executed wallet settlement lib pre proof) ∧
        ∀ res, r = some (.ok res) → res.resolution = .l1Peer →
          ∀ peer ∈ servingPeers t, peer ∈ failedPeers lib t → res.paymentError.isSome := by
  refine ⟨fun _ _ _ _ _ hrun => ZingWallet.payWal_genuine_iff hs hrun, ?_⟩
  intro self blobId t r hw hrun hunique hattempts
  have hmeets : Meets (surfacedContract wallet settlement lib) [] (self.resolve lib blobId) _ :=
    resolve_surfaced hw hs
  have hrely : ∀ t' : Trace PeerId, (∀ ev ∈ t', ev ∈ t) →
      Respects (surfacedContract wallet settlement lib).rely [] t' := fun t' hsub =>
    respects_of_forall (fun ev hev => ⟨hattempts ev (hsub ev hev), hunique ev (hsub ev hev)⟩) []
  constructor
  · rintro pre ev post proof rfl hproof
    have hguarantee := hmeets.effect hrun rfl (hrely pre fun ev hev => List.mem_append_left _ hev)
    exact hguarantee proof hproof
  · rintro res rfl hl1 peer hserving hfailed
    obtain ⟨a, ha, hreported⟩ | ⟨hnone, -⟩ := hmeets.result hrun (hrely t fun _ hev => hev)
    · cases ha
      exact hreported res rfl hl1 peer hserving hfailed
    · cases hnone

end Promises

/-! ### Two runs -/

/-- A settlement configuration with a vault. -/
def sampleSettlement : SettlementConfig where
  packageId := ⟨List.Vector.replicate 32 1⟩
  settlementObjectId := ⟨List.Vector.replicate 32 2⟩
  registryObjectId := ⟨List.Vector.replicate 32 6⟩
  registryPeersTableId := ⟨List.Vector.replicate 32 7⟩
  peerVaultsTableId := List.Vector.replicate 32 3
  vaultObjectId := some ⟨List.Vector.replicate 32 4⟩
  walCoinType := "0x1::wal::WAL"
  registryInitialSharedVersion := 1
  settlementInitialSharedVersion := 1
  vaultInitialSharedVersion := 1

/-- A wallet with settlement. -/
def payingWallet : ZingWallet := ⟨⟨List.Vector.replicate 32 5⟩, some sampleSettlement⟩

/-- A node with a P2P channel that pays. -/
def payingResolver : Resolver ℕ := ⟨none, true, some payingWallet⟩

/-- Library functions with a fixed hash and a fixed digest. -/
def paymentExternals : Externals ℕ :=
  { sampleExternals with
    bs58Decode := fun _ => .ok (List.replicate 32 6)
    sha256 := fun _ => List.Vector.replicate 32 7 }

/-- The address of a peer in the cache, from the history. -/
def cachedAddress (h : Trace ℕ) (peer : ℕ) : Option (Option Bytes32) :=
  h.reverse.findSome? fun
    | ⟨.suiAddrCacheInsert p addr, _⟩ => if p = peer then some addr else none
    | _ => none

/-- An environment whose peers all hold the byte 1; the addresses of the peers and the
outcome of every attempt to pay on chain are given. -/
def payingEnv (peers : List ℕ) (address : ℕ → Option Bytes32) (o : OnchainOutcome) :
    Trace ℕ → (e : Effect ℕ) → e.Ans
  | _, .await .getConnectedPeers _ => some peers
  | _, .await (.getPeerSuiAddress peer) _ => some (address peer)
  | _, .await (.fetchRange ..) _ => some (.ok [1])
  | _, .await (.fetchBlob ..) _ => some (.ok [1])
  | h, .suiAddrCacheGet peer => cachedAddress h peer
  | _, .onchainPay .. => o
  | h, e => garbageEnv h e

/-- The RPC node cannot be reached. -/
def rpcDown : OnchainOutcome := ⟨.error "down", ⟨.ok (), [], .ok []⟩, .ok (), .ok (), .ok none⟩

/-- The payment is executed. -/
def paidOutcome : OnchainOutcome := ⟨.ok (), ⟨.ok (), [], .ok []⟩, .ok (), .ok (), .ok (some "d")⟩

/-- The run of a resolve among these peers. -/
def payingRun (peers : List ℕ) (address : ℕ → Option Bytes32) (o : OnchainOutcome) :
    Trace ℕ × Option (ZingResult ResolveResult) :=
  exec (payingEnv peers address o) [] (payingResolver.resolve paymentExternals (sampleBlobId [1]))

/-- A peer that was remembered as one without an address is not paid, and nothing says so. -/
example : (exec (payingEnv [0] (fun _ => none) paidOutcome) [⟨.suiAddrCacheInsert 0 none, ()⟩]
    (payingResolver.resolve paymentExternals (sampleBlobId [1]))).2
      = some (.ok ⟨[1], .l1Peer, true, none⟩) := by rfl

theorem payingEnv_unique {peers : List ℕ} (hpeers : peers.Nodup) {address : ℕ → Option Bytes32}
    {o : OnchainOutcome} (h : Trace ℕ) (e : Effect ℕ) :
    UniquePeers e (payingEnv peers address o h e) := by
  cases e with
  | await cmd timeout =>
      cases cmd with
      | getConnectedPeers => exact hpeers
      | _ => trivial
  | _ => trivial

/-- Every attempt to pay on chain has the outcome. -/
def OutcomeIs (o : OnchainOutcome) : (e : Effect ℕ) → e.Ans → Prop
  | .onchainPay .., o' => o' = o
  | _, _ => True

theorem payingRun_outcome {peers : List ℕ} {address : ℕ → Option Bytes32} {o : OnchainOutcome} :
    ∀ ev ∈ (payingRun peers address o).1, OutcomeIs o ev.1 ev.2 := by
  refine forall_exec (fun h e => ?_) [] _
  cases e with
  | onchainPay => rfl
  | _ => trivial

/-- A peer with an address, and the RPC node down. -/
def unreachableRun : Trace ℕ × Option (ZingResult ResolveResult) :=
  payingRun [0] (fun _ => some (List.Vector.replicate 32 8)) rpcDown

/-- A peer without an address and one that is paid. -/
def halfPaidRun : Trace ℕ × Option (ZingResult ResolveResult) :=
  payingRun [0, 1] (fun peer => if peer = 0 then none else some (List.Vector.replicate 32 8))
    paidOutcome

/-- **A failed attempt goes out as a proof**: the node cannot reach the RPC node, sends a
synthetic proof with each fetch, and reports no error. -/
theorem not_payment_surfaced :
    ∃ t res, (payingResolver.resolve paymentExternals (sampleBlobId [1])).Runs t
        (some (.ok res)) ∧
      (∃ ev ∈ t, AttemptFails payingWallet sampleSettlement paymentExternals ev.1 ev.2) ∧
      (∃ ev ∈ t, ∃ proof, ev.1.proof? = some proof ∧ proof ≠ zeroBytes32) ∧
      (∀ d, ¬ Executed payingWallet sampleSettlement paymentExternals t d) ∧
      res.resolution = .l1Peer ∧ res.paymentError = none := by
  have hend : unreachableRun.2 = some (.ok ⟨[1], .l1Peer, true, none⟩) := by
    rfl
  have hmem : ∀ e ∈ ([.onchainPay ⟨List.Vector.replicate 32 8⟩ (sampleBlobId [1]).bytes 8,
      .send (.fetchRange 0 (sampleBlobId [1]).bytes 0 8 (List.Vector.replicate 32 7))] :
        List (Effect ℕ)), ∃ r, ⟨e, r⟩ ∈ unreachableRun.1 := by
    have hsub : ([.onchainPay ⟨List.Vector.replicate 32 8⟩ (sampleBlobId [1]).bytes 8,
        .send (.fetchRange 0 (sampleBlobId [1]).bytes 0 8 (List.Vector.replicate 32 7))] :
          List (Effect ℕ)) ⊆ unreachableRun.1.map Sigma.fst := by
      decide +kernel
    intro e he
    obtain ⟨⟨e, r⟩, hev, rfl⟩ := List.mem_map.mp (hsub he)
    exact ⟨r, hev⟩
  have hfails : ∀ recipient blobHash amount, ∃ err, payingWallet.tryOnchainPay paymentExternals
      sampleSettlement recipient blobHash amount rpcDown = some (.error err) :=
    fun _ _ _ => ⟨_, rfl⟩
  refine ⟨_, _, hend ▸ runs_exec _ [] _, ?_, ?_, ?_, rfl, rfl⟩
  · obtain ⟨o, hev⟩ := hmem _ List.mem_cons_self
    obtain rfl : o = rpcDown := payingRun_outcome _ hev
    exact ⟨_, hev, hfails _ _ _⟩
  · obtain ⟨sent, hev⟩ := hmem _ (List.mem_cons_of_mem _ List.mem_cons_self)
    exact ⟨_, hev, _, rfl, by decide⟩
  · rintro d ⟨recipient, blobHash, amount, o, hev, hreceipt⟩
    obtain rfl : o = rpcDown := payingRun_outcome _ hev
    obtain ⟨err, herr⟩ := hfails recipient blobHash amount
    rw [ZingWallet.tryOnchainPay_eq_ok_iff.mpr hreceipt] at herr
    cases herr

theorem payment_surfaced_halfPaid :
    ∃ res, halfPaidRun.2 = some (.ok res) ∧ res.resolution = .l1Peer ∧
      res.paymentError.isSome := by
  have hend : halfPaidRun.2
      = some (.ok ⟨[1], .l1Peer, true, some "Peer has no Sui address"⟩) := by
    rfl
  have hpaid : ∀ recipient blobHash amount, payingWallet.tryOnchainPay paymentExternals
      sampleSettlement recipient blobHash amount paidOutcome
        = some (.ok (List.Vector.replicate 32 6)) := fun _ _ _ => rfl
  have hattempts : ∀ ev ∈ halfPaidRun.1,
      ¬ AttemptFails payingWallet sampleSettlement paymentExternals ev.1 ev.2 := by
    rintro ⟨e, r⟩ hev
    have hr := payingRun_outcome _ hev
    cases e with
    | onchainPay recipient blobHash amount =>
        obtain rfl : r = paidOutcome := hr
        rintro ⟨err, herr⟩
        rw [hpaid] at herr
        cases herr
    | _ => exact id
  have hsurfaced := ((payment_surfaced paymentExternals rfl).2 payingResolver (sampleBlobId [1])
    halfPaidRun.1 _ rfl (runs_exec _ [] _)
    (forall_exec (payingEnv_unique (by decide)) [] _) hattempts).2
  exact ⟨_, hend, rfl, hsurfaced _ hend rfl 0 (by decide +kernel) (by decide +kernel)⟩

end ZingCdn
