import ZingCdn.Library.Interleaving
import ZingCdn.P2pNode
import ZingCdn.RangeServing

/-!
# Spot Checks over Both Kinds of Requests

One counter for the whole process numbers the unpaid requests, for blobs and for ranges alike,
and the handlers refuse every tenth of them before they look at the store. The number is taken
by an atomic `fetch_add`; after it a handler waits for the lock of the store, and other
handlers may take their numbers, read the store and change what it holds.

A handler is a program over these two effects, and any number of them run in the same process,
one effect of one handler at a time. `Process.counted` lists the handlers in the order in which
they took their numbers, so the position in it is the position of an unpaid request among all
unpaid requests. The handlers of `ZingCdn.Handler` are these programs run alone
(`handle_blob_alone`, `handle_range_alone`).

## Main results

* `Process.numbered_of_reachable`: where every handler is, and its number.
* `Process.spot_checks_fair`: which requests are refused, and how the others are answered.
-/

open Program Program.Prog

namespace ZingCdn

variable {PeerId : Type}

/-! ### The handlers -/

/-- What the handlers share: `REQUEST_COUNTER.fetch_add(1)`, and a read of the store. -/
inductive HandlerEffect
  | fetchAdd
  | readStore (key : String)

/-- The answers: the counter before the addition, and what the store holds. -/
def HandlerEffect.Ans : HandlerEffect → Type
  | .fetchAdd => ℕ
  | .readStore _ => ZingResult (Option Bytes)

/-- A program of a handler. -/
abbrev HandlerAction : Type → Type := Prog HandlerEffect.Ans

/-- Perform one effect. -/
abbrev performShared (e : HandlerEffect) : HandlerAction e.Ans := Prog.perform e

/-- A request of either kind. -/
inductive InboundRequest
  | blob (request : BlobRequest)
  | range (request : RangeRequest)

/-- A response of either kind. -/
inductive InboundResponse
  | blob (response : BlobResponse)
  | range (response : RangeResponse)
deriving DecidableEq

namespace InboundRequest

/-- The blob that is requested. -/
def blobId : InboundRequest → Bytes32
  | .blob request => request.blobId
  | .range request => request.blobId

/-- The payment of a request; the request is unpaid when it is all zeros. -/
def paymentTxDigest : InboundRequest → Bytes32
  | .blob request => request.paymentTxDigest
  | .range request => request.paymentTxDigest

/-- The request names no payment. -/
def Unpaid (request : InboundRequest) : Prop := request.paymentTxDigest = zeroBytes32

instance (request : InboundRequest) : Decidable request.Unpaid :=
  inferInstanceAs (Decidable (_ = _))

/-- `BlobResponse::not_found` and `RangeResponse::not_found`. -/
def notFound : InboundRequest → InboundResponse
  | .blob _ => .blob .notFound
  | .range _ => .range .notFound

variable (overflowChecks : Bool) (lib : Externals PeerId)

/-- The answer to a request, from what the store holds; `none` is a panic. -/
def respond : InboundRequest → ZingResult (Option Bytes) → Option InboundResponse
  | .blob _, .ok (some data) => some (.blob (.have_ data))
  | .range request, .ok (some data) =>
      (serveRangeIn overflowChecks data request.offset request.length).map .range
  | request, .ok none => some request.notFound
  | request, .error _ => some request.notFound

/-- The end of a handler: a response, or a panic. -/
def ended : Option InboundResponse → HandlerAction InboundResponse
  | some response => pure response
  | none => .panic

/-- The handlers from the lock of the store on. -/
def serve (request : InboundRequest) : HandlerAction InboundResponse := do
  let found : ZingResult (Option Bytes) ←
    performShared (.readStore (lib.blobIdToString ⟨request.blobId⟩))
  ended (request.respond overflowChecks found)

/-- `handle_inbound_request` and `handle_inbound_range_request`. -/
def handle (request : InboundRequest) : HandlerAction InboundResponse :=
  if request.Unpaid then do
    let requestCounter : ℕ ← performShared .fetchAdd
    if isSpotCheck requestCounter then pure request.notFound
    else request.serve overflowChecks lib
  else request.serve overflowChecks lib

end InboundRequest

/-! ### One handler alone -/

section Alone

variable {overflowChecks : Bool} {lib : Externals PeerId}

/-- The counter and the store that a handler finds. -/
def aloneEnv (store : StoreRead) (requestCounter : ℕ) :
    History HandlerEffect.Ans → ∀ e, HandlerEffect.Ans e
  | _, .fetchAdd => requestCounter
  | _, .readStore key => store key

/-- What a handler that runs alone answers. -/
theorem exec_handle (store : StoreRead) (requestCounter : ℕ) (request : InboundRequest) :
    (exec (aloneEnv store requestCounter) [] (request.handle overflowChecks lib)).2 =
      if request.Unpaid ∧ isSpotCheck requestCounter then some request.notFound
      else request.respond overflowChecks (store (lib.blobIdToString ⟨request.blobId⟩)) := by
  have hserve : ∀ h, (exec (aloneEnv store requestCounter) h
      (request.serve overflowChecks lib)).2
        = request.respond overflowChecks (store (lib.blobIdToString ⟨request.blobId⟩)) := by
    intro h
    show (exec _ _ (InboundRequest.ended (request.respond overflowChecks
      (store (lib.blobIdToString ⟨request.blobId⟩))))).2 = _
    cases request.respond overflowChecks (store (lib.blobIdToString ⟨request.blobId⟩)) <;> rfl
  rw [InboundRequest.handle]
  split
  · rename_i hunpaid
    show (exec _ _ (if isSpotCheck requestCounter then pure request.notFound
      else request.serve overflowChecks lib)).2 = _
    cases hspot : isSpotCheck requestCounter with
    | true => rw [if_pos rfl, if_pos ⟨hunpaid, rfl⟩]; rfl
    | false =>
        rw [if_neg Bool.false_ne_true, hserve, if_neg fun h => Bool.false_ne_true h.2]
  · rename_i hpaid
    rw [hserve, if_neg fun h => hpaid h.1]

/-- A blob handler that runs alone is the handler of blob requests. -/
theorem handle_blob_alone (store : StoreRead) (requestCounter : ℕ) (request : BlobRequest) :
    (exec (aloneEnv store requestCounter) []
        ((InboundRequest.blob request).handle overflowChecks lib)).2
      = some (.blob (handleInboundRequest lib store requestCounter request).1) := by
  rw [exec_handle, handleInboundRequest]
  by_cases hrefused : (InboundRequest.blob request).Unpaid ∧ isSpotCheck requestCounter
  · rw [if_pos hrefused, if_pos (show request.paymentTxDigest = _ ∧ _ from hrefused)]
    rfl
  · rw [if_neg hrefused, if_neg (show ¬ (request.paymentTxDigest = _ ∧ _) from hrefused)]
    show InboundRequest.respond _ _ (store (lib.blobIdToString ⟨request.blobId⟩)) = _
    rcases store (lib.blobIdToString ⟨request.blobId⟩) with _ | _ | _ <;> rfl

/-- A range handler that runs alone is the handler of range requests. -/
theorem handle_range_alone (store : StoreRead) (requestCounter : ℕ) (request : RangeRequest) :
    (exec (aloneEnv store requestCounter) []
        ((InboundRequest.range request).handle overflowChecks lib)).2
      = (handleInboundRangeRequestIn overflowChecks lib store requestCounter request).map
          fun answer => .range answer.1 := by
  rw [exec_handle, handleInboundRangeRequestIn]
  by_cases hrefused : (InboundRequest.range request).Unpaid ∧ isSpotCheck requestCounter
  · rw [if_pos hrefused, if_pos (show request.paymentTxDigest = _ ∧ _ from hrefused)]
    rfl
  · rw [if_neg hrefused, if_neg (show ¬ (request.paymentTxDigest = _ ∧ _) from hrefused)]
    show InboundRequest.respond _ _ (store (lib.blobIdToString ⟨request.blobId⟩)) = _
    rcases store (lib.blobIdToString ⟨request.blobId⟩) with _ | _ | data
    · rfl
    · rfl
    · show (serveRangeIn overflowChecks data request.offset request.length).map _ = _
      rw [Option.map_map]
      rfl

end Alone

/-! ### The process -/

/-- A handler: its request, what it has done, and what it has left to do. -/
abbrev HandlerTask : Type := Task HandlerEffect.Ans InboundRequest InboundResponse

/-- The handlers of a process by their response channels, over one counter; and the channels of
the handlers that have taken a number, in order. -/
structure Process where
  requestCounter : ℕ
  handlers : ResponseChannel → Option HandlerTask
  counted : List ResponseChannel

namespace Process

/-- One step: a handler starts on a channel of its own, takes a number, or finds something in
the store. -/
inductive Step (overflowChecks : Bool) (lib : Externals PeerId) : Process → Process → Prop
  | start {process : Process} {channel : ResponseChannel} (request : InboundRequest) :
      process.handlers channel = none →
        Step overflowChecks lib process { process with
          handlers := Function.update process.handlers channel
            (some ⟨request, [], request.handle overflowChecks lib⟩) }
  | fetchAdd {process : Process} {channel : ResponseChannel} {request : InboundRequest}
      {h : History HandlerEffect.Ans} {k : ℕ → HandlerAction InboundResponse} :
      process.handlers channel = some ⟨request, h, .call .fetchAdd k⟩ →
        Step overflowChecks lib process
          { requestCounter := nextRequest process.requestCounter
            handlers := Function.update process.handlers channel
              (some ⟨request, h ++ [⟨.fetchAdd, process.requestCounter⟩],
                k process.requestCounter⟩)
            counted := process.counted ++ [channel] }
  | readStore {process : Process} {channel : ResponseChannel} {request : InboundRequest}
      {h : History HandlerEffect.Ans} {key : String}
      {k : ZingResult (Option Bytes) → HandlerAction InboundResponse}
      (found : ZingResult (Option Bytes)) :
      process.handlers channel = some ⟨request, h, .call (.readStore key) k⟩ →
        Step overflowChecks lib process { process with
          handlers := Function.update process.handlers channel
            (some ⟨request, h ++ [⟨.readStore key, found⟩], k found⟩) }

/-- A process before its first request. -/
def initial : Process := ⟨0, fun _ => none, []⟩

/-- The processes that some run ends in. -/
def Reachable (overflowChecks : Bool) (lib : Externals PeerId) : Process → Prop :=
  Transition.Reachable (fun process => process = initial) (Step overflowChecks lib)

/-! ### The numbers -/

variable {overflowChecks : Bool} {lib : Externals PeerId}

/-- What a handler has done before it reads the store: nothing, when the request is paid, or it
took a number that is no spot check. -/
def Passed (counted : List ResponseChannel) (channel : ResponseChannel)
    (request : InboundRequest) (h : History HandlerEffect.Ans) : Prop :=
  ¬ request.Unpaid ∧ channel ∉ counted ∧ h = [] ∨
    request.Unpaid ∧ ∃ n, counted[n]? = some channel ∧
      isSpotCheck (n % 18446744073709551616) = false ∧
        h = [⟨.fetchAdd, n % 18446744073709551616⟩]

/-- Where a handler is, given who has taken a number. -/
inductive Phase (overflowChecks : Bool) (lib : Externals PeerId)
    (counted : List ResponseChannel) (channel : ResponseChannel) : HandlerTask → Prop
  | begun (request : InboundRequest) : channel ∉ counted →
      Phase overflowChecks lib counted channel
        ⟨request, [], request.handle overflowChecks lib⟩
  | refused {request : InboundRequest} {n : ℕ} : request.Unpaid →
      counted[n]? = some channel → isSpotCheck (n % 18446744073709551616) = true →
        Phase overflowChecks lib counted channel
          ⟨request, [⟨.fetchAdd, n % 18446744073709551616⟩], pure request.notFound⟩
  | passed {request : InboundRequest} {h : History HandlerEffect.Ans} :
      Passed counted channel request h →
        Phase overflowChecks lib counted channel ⟨request, h, request.serve overflowChecks lib⟩
  | served {request : InboundRequest} {h : History HandlerEffect.Ans}
      (found : ZingResult (Option Bytes)) : Passed counted channel request h →
        Phase overflowChecks lib counted channel
          ⟨request, h ++ [⟨.readStore (lib.blobIdToString ⟨request.blobId⟩), found⟩],
            InboundRequest.ended (request.respond overflowChecks found)⟩

/-- Each number is taken once, and each handler is where its number says. -/
structure Numbered (overflowChecks : Bool) (lib : Externals PeerId) (process : Process) :
    Prop where
  counter : process.requestCounter = process.counted.length % 18446744073709551616
  nodup : process.counted.Nodup
  known : ∀ channel ∈ process.counted, process.handlers channel ≠ none
  phase : ∀ channel task, process.handlers channel = some task →
    Phase overflowChecks lib process.counted channel task

section Phases

variable {counted : List ResponseChannel} {channel other : ResponseChannel}
  {request : InboundRequest} {h : History HandlerEffect.Ans} {task : HandlerTask}

/-- A number stays with its handler while others take theirs. -/
theorem getElem?_concat {n : ℕ} (hn : counted[n]? = some channel) (other : ResponseChannel) :
    (counted ++ [other])[n]? = some channel := by
  obtain ⟨hlt, -⟩ := List.getElem?_eq_some_iff.mp hn
  rw [List.getElem?_append_left hlt, hn]

/-- Another number does not change what a handler has passed. -/
theorem Passed.concat (hpassed : Passed counted channel request h) (hother : channel ≠ other) :
    Passed (counted ++ [other]) channel request h := by
  rcases hpassed with ⟨hpaid, hnew, hh⟩ | ⟨hunpaid, n, hn, hspot, hh⟩
  · exact .inl ⟨hpaid, by simp [hnew, hother], hh⟩
  · exact .inr ⟨hunpaid, n, getElem?_concat hn other, hspot, hh⟩

/-- Nor where it is. -/
theorem Phase.concat (hphase : Phase overflowChecks lib counted channel task)
    (hother : channel ≠ other) :
    Phase overflowChecks lib (counted ++ [other]) channel task := by
  cases hphase with
  | begun request hnew => exact .begun request (by simp [hnew, hother])
  | refused hunpaid hn hspot => exact .refused hunpaid (getElem?_concat hn other) hspot
  | passed hpassed => exact .passed (hpassed.concat hother)
  | served found hpassed => exact .served found (hpassed.concat hother)

/-- An unpaid request takes a number first. -/
theorem handle_of_unpaid (hunpaid : request.Unpaid) :
    request.handle overflowChecks lib = .call .fetchAdd fun requestCounter =>
      if isSpotCheck requestCounter then pure request.notFound
      else request.serve overflowChecks lib := if_pos hunpaid

/-- A paid one is served at once. -/
theorem handle_of_paid (hpaid : ¬ request.Unpaid) :
    request.handle overflowChecks lib = request.serve overflowChecks lib := if_neg hpaid

/-- The end of a handler has no effects. -/
theorem ended_ne_call (outcome : Option InboundResponse) {e : HandlerEffect}
    {k : e.Ans → HandlerAction InboundResponse} : InboundRequest.ended outcome ≠ .call e k := by
  cases outcome <;> rintro ⟨⟩

/-- The end of a handler shows its response. -/
theorem ended_injective : Function.Injective InboundRequest.ended := by
  rintro (_ | response) (_ | response') heq <;> cases heq <;> rfl

theorem runs_ended : ∀ outcome, (InboundRequest.ended outcome).Runs [] outcome
  | some response => .ret response
  | none => .panic

/-- What the handlers answer without the spot check. -/
theorem runs_serve (found : ZingResult (Option Bytes)) :
    (request.serve overflowChecks lib).Runs
      [⟨.readStore (lib.blobIdToString ⟨request.blobId⟩), found⟩]
      (request.respond overflowChecks found) :=
  runs_call_iff.mpr ⟨found, [], rfl, runs_ended _⟩

/-- A handler does not end before its first effect. -/
theorem handle_ne_ended (outcome : Option InboundResponse) :
    request.handle overflowChecks lib ≠ InboundRequest.ended outcome := by
  by_cases hunpaid : request.Unpaid
  · rw [handle_of_unpaid hunpaid]
    exact (ended_ne_call outcome).symm
  · rw [handle_of_paid hunpaid]
    exact (ended_ne_call outcome).symm

/-- A handler that takes a number does so first, and goes on as the number says. -/
theorem Phase.fetchAdd {k : ℕ → HandlerAction InboundResponse}
    (hphase : Phase overflowChecks lib counted channel ⟨request, h, .call .fetchAdd k⟩)
    {requestCounter : ℕ} (hcounter : requestCounter = counted.length % 18446744073709551616) :
    channel ∉ counted ∧ Phase overflowChecks lib (counted ++ [channel]) channel
      ⟨request, h ++ [⟨.fetchAdd, requestCounter⟩], k requestCounter⟩ := by
  subst hcounter
  generalize htask : (⟨request, h, .call .fetchAdd k⟩ : HandlerTask) = task at hphase
  cases hphase with
  | begun request' hnew =>
      obtain ⟨rfl, rfl, hrest⟩ := Task.mk.inj htask
      by_cases hunpaid : request.Unpaid
      · rw [handle_of_unpaid hunpaid] at hrest
        obtain ⟨-, hk⟩ := Prog.call.inj hrest
        obtain rfl := eq_of_heq hk
        have hn : (counted ++ [channel])[counted.length]? = some channel :=
          List.getElem?_concat_length
        refine ⟨hnew, ?_⟩
        cases hspot : isSpotCheck (counted.length % 18446744073709551616) with
        | true =>
            simp only [hspot, if_true]
            exact .refused hunpaid hn hspot
        | false =>
            simp only [hspot, Bool.false_eq_true, if_false]
            exact .passed (.inr ⟨hunpaid, _, hn, hspot, rfl⟩)
      · rw [handle_of_paid hunpaid] at hrest
        cases hrest
  | refused => cases (Task.mk.inj htask).2.2
  | passed => cases (Task.mk.inj htask).2.2
  | served => exact absurd (Task.mk.inj htask).2.2.symm (ended_ne_call _)

/-- A handler that reads the store has passed the spot check. -/
theorem Phase.readStore {key : String}
    {k : ZingResult (Option Bytes) → HandlerAction InboundResponse}
    (hphase : Phase overflowChecks lib counted channel ⟨request, h, .call (.readStore key) k⟩)
    (found : ZingResult (Option Bytes)) : Phase overflowChecks lib counted channel
      ⟨request, h ++ [⟨.readStore key, found⟩], k found⟩ := by
  generalize htask : (⟨request, h, .call (.readStore key) k⟩ : HandlerTask) = task at hphase
  cases hphase with
  | begun request' hnew =>
      obtain ⟨rfl, rfl, hrest⟩ := Task.mk.inj htask
      by_cases hunpaid : request.Unpaid
      · rw [handle_of_unpaid hunpaid] at hrest
        cases hrest
      · rw [handle_of_paid hunpaid] at hrest
        cases hrest
        exact .served found (.inl ⟨hunpaid, hnew, rfl⟩)
  | refused => cases (Task.mk.inj htask).2.2
  | passed hpassed =>
      obtain ⟨rfl, rfl, hrest⟩ := Task.mk.inj htask
      cases hrest
      exact .served found hpassed
  | served => exact absurd (Task.mk.inj htask).2.2.symm (ended_ne_call _)

end Phases

/-! ### Runs -/

section Runs

variable {process process' : Process}

/-- The handler of one channel makes a step, and the others stay where they are. -/
theorem phase_update {counted : List ResponseChannel} {channel : ResponseChannel}
    {task : HandlerTask} (hother : ∀ other task', other ≠ channel →
      process.handlers other = some task' → Phase overflowChecks lib counted other task')
    (hphase : Phase overflowChecks lib counted channel task) (other : ResponseChannel)
    (task' : HandlerTask)
    (htask : Function.update process.handlers channel (some task) other = some task') :
    Phase overflowChecks lib counted other task' := by
  by_cases heq : other = channel
  · subst heq
    rw [Function.update_self] at htask
    obtain rfl := Option.some.inj htask
    exact hphase
  · rw [Function.update_of_ne heq] at htask
    exact hother other task' heq htask

/-- A handler that is there stays there. -/
theorem update_ne_none {channel other : ResponseChannel} {task : HandlerTask}
    (h : other ≠ channel → process.handlers other ≠ none) :
    Function.update process.handlers channel (some task) other ≠ none := by
  by_cases heq : other = channel
  · subst heq
    rw [Function.update_self]
    exact Option.some_ne_none task
  · rw [Function.update_of_ne heq]
    exact h heq

/-- **One step** keeps the numbers. -/
theorem Numbered.step (hn : Numbered overflowChecks lib process)
    (hstep : Step overflowChecks lib process process') :
    Numbered overflowChecks lib process' := by
  cases hstep with
  | @start channel request hfree =>
      refine ⟨hn.counter, hn.nodup,
        fun other hother => update_ne_none fun _ => hn.known other hother,
        phase_update (fun other task' _ => hn.phase other task') (.begun request fun hmem => ?_)⟩
      exact hn.known channel hmem hfree
  | @fetchAdd channel request h k hhandler =>
      obtain ⟨hnew, hphase⟩ := (hn.phase _ _ hhandler).fetchAdd hn.counter
      refine ⟨?_, ?_, fun other hother => update_ne_none fun hne => ?_,
        phase_update (fun other task' hne htask => (hn.phase other task' htask).concat hne) hphase⟩
      · show nextRequest process.requestCounter = (process.counted ++ [channel]).length % _
        rw [nextRequest, hn.counter, List.length_append, Nat.mod_add_mod]
        rfl
      · exact hn.nodup.append (List.nodup_singleton _) (List.disjoint_singleton.mpr hnew)
      · rcases List.mem_append.mp hother with hother | hother
        · exact hn.known other hother
        · exact absurd (List.mem_singleton.mp hother) hne
  | @readStore channel request h key k found hhandler =>
      exact ⟨hn.counter, hn.nodup,
        fun other hother => update_ne_none fun _ => hn.known other hother,
        phase_update (fun other task' _ => hn.phase other task')
          ((hn.phase _ _ hhandler).readStore found)⟩

/-- **Every handler is where its number says**, in every run. -/
theorem numbered_of_reachable (hreach : Reachable overflowChecks lib process) :
    Numbered overflowChecks lib process := by
  refine hreach.invariant (Numbered overflowChecks lib) ?_ fun _ _ => Numbered.step
  rintro _ rfl
  exact ⟨rfl, List.nodup_nil, by rintro _ ⟨⟩, by rintro _ _ ⟨⟩⟩

end Runs

/-! ### Refusals -/

/-- A handler that has answered without a look at the store. -/
def Refused (task : HandlerTask) : Prop :=
  (∃ response, task.rest = .ret response) ∧ ∀ ev ∈ task.history, ev.1 = .fetchAdd

/-- The request on a channel was refused. -/
def Refuses (process : Process) (channel : ResponseChannel) : Prop :=
  ∃ task, process.handlers channel = some task ∧ Refused task

section Refusals

variable {process : Process} {counted : List ResponseChannel} {channel : ResponseChannel}
  {task : HandlerTask}

/-- Within 2 ^ 64 numbers, the counter of a handler is its number. -/
theorem number_mod {n : ℕ} (hfew : counted.length ≤ 18446744073709551616)
    (hn : counted[n]? = some channel) : n % 18446744073709551616 = n := by
  obtain ⟨hlt, -⟩ := List.getElem?_eq_some_iff.mp hn
  exact Nat.mod_eq_of_lt (by omega)

/-- **Which handlers refuse**: those whose number is a multiple of ten. -/
theorem Phase.refused_iff (hphase : Phase overflowChecks lib counted channel task)
    (hnodup : counted.Nodup) (hfew : counted.length ≤ 18446744073709551616) :
    Refused task ↔ ∃ n, counted[n]? = some channel ∧ n % 10 = 0 := by
  have hspot_iff : ∀ n, counted[n]? = some channel →
      (isSpotCheck (n % 18446744073709551616) = true ↔ n % 10 = 0) := by
    intro n hn
    rw [number_mod hfew hn, isSpotCheck, decide_eq_true_iff]
  -- a handler that has passed has no number, or one that is no multiple of ten
  have hpassed : ∀ {request h}, Passed counted channel request h →
      ¬ ∃ n, counted[n]? = some channel ∧ n % 10 = 0 := by
    rintro request h (⟨-, hnew, -⟩ | ⟨-, n, hn, hspot, -⟩) ⟨m, hm, hdvd⟩
    · exact hnew (List.mem_of_getElem? hm)
    · obtain ⟨hlt, -⟩ := List.getElem?_eq_some_iff.mp hm
      obtain rfl := (List.getElem?_inj hlt hnodup).mp (hm.trans hn.symm)
      rw [(hspot_iff m hm).mpr hdvd] at hspot
      exact Bool.noConfusion hspot
  cases hphase with
  | begun request hnew =>
      refine iff_of_false ?_ fun ⟨n, hn, _⟩ => hnew (List.mem_of_getElem? hn)
      rintro ⟨⟨response, hrest⟩, -⟩
      exact handle_ne_ended (some response) hrest
  | @refused request n hunpaid hn hspot =>
      exact iff_of_true ⟨⟨_, rfl⟩, fun ev hev => (List.mem_singleton.mp hev) ▸ rfl⟩
        ⟨n, hn, (hspot_iff n hn).mp hspot⟩
  | passed hp =>
      refine iff_of_false ?_ (hpassed hp)
      rintro ⟨⟨response, hrest⟩, -⟩
      cases hrest
  | served found hp =>
      refine iff_of_false (fun hrefused => ?_) (hpassed hp)
      cases hrefused.2 _ (List.mem_append_right _ List.mem_cons_self)

/-- A handler has a number when it is unpaid and has begun. -/
theorem Passed.mem_iff {request : InboundRequest} {h : History HandlerEffect.Ans}
    (hpassed : Passed counted channel request h) :
    channel ∈ counted ↔ request.Unpaid ∧ h ≠ [] := by
  rcases hpassed with ⟨hpaid, hnew, -⟩ | ⟨hunpaid, n, hn, -, rfl⟩
  · exact iff_of_false hnew fun hunpaid => hpaid hunpaid.1
  · exact iff_of_true (List.mem_of_getElem? hn) ⟨hunpaid, List.cons_ne_nil _ _⟩

/-- The handlers that have taken a number are the unpaid ones that have begun. -/
theorem Phase.mem_iff (hphase : Phase overflowChecks lib counted channel task) :
    channel ∈ counted ↔ task.tag.Unpaid ∧ task.history ≠ [] := by
  cases hphase with
  | begun request hnew => exact iff_of_false hnew fun hbegun => hbegun.2 rfl
  | refused hunpaid hn =>
      exact iff_of_true (List.mem_of_getElem? hn) ⟨hunpaid, List.cons_ne_nil _ _⟩
  | passed hpassed => exact hpassed.mem_iff
  | @served request h found hpassed =>
      have hlast : h ++ [⟨.readStore (lib.blobIdToString ⟨request.blobId⟩), found⟩] ≠ [] :=
        List.append_ne_nil_of_right_ne_nil _ (List.cons_ne_nil _ _)
      refine ⟨fun hmem => ⟨(hpassed.mem_iff.mp hmem).1, hlast⟩, fun hbegun => ?_⟩
      rcases hpassed with ⟨hpaid, -⟩ | ⟨-, n, hn, -⟩
      · exact absurd hbegun.1 hpaid
      · exact List.mem_of_getElem? hn

/-- A refused request is told not found. -/
theorem Phase.notFound (hphase : Phase overflowChecks lib counted channel task)
    (hrefused : Refused task) : task.rest = .ret task.tag.notFound := by
  obtain ⟨⟨response, hrest⟩, hcounted⟩ := hrefused
  cases hphase with
  | begun request => exact absurd hrest (handle_ne_ended (some response))
  | refused => rfl
  | passed => cases hrest
  | served found => cases hcounted _ (List.mem_append_right _ List.mem_cons_self)

/-- What a handler has answered that has not refused. -/
theorem Phase.answered (hphase : Phase overflowChecks lib counted channel task)
    {outcome : Option InboundResponse} (hrest : task.rest = InboundRequest.ended outcome)
    (hserved : ¬ Refused task) :
    ∃ found, ⟨.readStore (lib.blobIdToString ⟨task.tag.blobId⟩), found⟩ ∈ task.history ∧
      (task.tag.serve overflowChecks lib).Runs
        [⟨.readStore (lib.blobIdToString ⟨task.tag.blobId⟩), found⟩] outcome := by
  cases hphase with
  | begun request => exact absurd hrest (handle_ne_ended outcome)
  | refused =>
      exact absurd ⟨⟨_, rfl⟩, fun ev hev => (List.mem_singleton.mp hev) ▸ rfl⟩ hserved
  | passed => exact absurd hrest.symm (ended_ne_call outcome)
  | served found =>
      obtain rfl := ended_injective hrest
      exact ⟨found, List.mem_append_right _ List.mem_cons_self, runs_serve found⟩

/-- What a window of a list contains. -/
theorem mem_window_iff {l : List ResponseChannel} {k m : ℕ} :
    channel ∈ (l.drop k).take m ↔ ∃ n, k ≤ n ∧ n < k + m ∧ l[n]? = some channel := by
  rw [List.mem_iff_getElem?]
  constructor
  · rintro ⟨i, hi⟩
    rw [List.getElem?_take, List.getElem?_drop] at hi
    split at hi
    · exact ⟨k + i, by omega, by omega, hi⟩
    · cases hi
  · rintro ⟨n, hk, hlt, hn⟩
    refine ⟨n - k, ?_⟩
    rw [List.getElem?_take, List.getElem?_drop, if_pos (by omega), Nat.add_sub_cancel' hk, hn]

end Refusals

/-- What it is to be fair. -/
structure Fair (overflowChecks : Bool) (lib : Externals PeerId) (process : Process) : Prop where
  /-- the handlers that are counted are the unpaid ones that have begun -/
  counted_iff : ∀ channel task, process.handlers channel = some task →
    (channel ∈ process.counted ↔ task.tag.Unpaid ∧ task.history ≠ [])
  /-- each is counted once -/
  nodup : process.counted.Nodup
  /-- the refused ones are those at the multiples of ten, and they are told not found -/
  refused_iff : ∀ channel task, process.handlers channel = some task →
    (Refused task ↔ ∃ n, process.counted[n]? = some channel ∧ n % 10 = 0)
  notFound : ∀ channel task, process.handlers channel = some task → Refused task →
    task.rest = .ret task.tag.notFound
  /-- a paid request is not refused, and does not count -/
  paid : ∀ channel task, process.handlers channel = some task → ¬ task.tag.Unpaid →
    ¬ Refused task ∧ channel ∉ process.counted
  /-- of ten in a row, one is refused -/
  window : ∀ k, k + 10 ≤ process.counted.length →
    ∃! channel, channel ∈ (process.counted.drop k).take 10 ∧ process.Refuses channel
  /-- what is not refused is answered from the store, as without the spot check -/
  answered : ∀ channel task outcome, process.handlers channel = some task →
    task.rest = InboundRequest.ended outcome → ¬ Refused task →
      ∃ found, ⟨.readStore (lib.blobIdToString ⟨task.tag.blobId⟩), found⟩ ∈ task.history ∧
        (task.tag.serve overflowChecks lib).Runs
          [⟨.readStore (lib.blobIdToString ⟨task.tag.blobId⟩), found⟩] outcome

/-- Of ten numbers in a row one is a multiple of ten. -/
theorem window_of_refused_iff {process : Process} (hnodup : process.counted.Nodup)
    (hrefuses : ∀ channel ∈ process.counted,
      (process.Refuses channel ↔ ∃ n, process.counted[n]? = some channel ∧ n % 10 = 0)) {k : ℕ}
    (hk : k + 10 ≤ process.counted.length) :
    ∃! channel, channel ∈ (process.counted.drop k).take 10 ∧ process.Refuses channel := by
  obtain ⟨n, hle, hlt, hdvd⟩ : ∃ n, k ≤ n ∧ n < k + 10 ∧ n % 10 = 0 :=
    ⟨(k + 9) / 10 * 10, by omega, by omega, by omega⟩
  have hn : process.counted[n]? = some process.counted[n] := List.getElem?_eq_getElem _
  refine ⟨process.counted[n], ⟨mem_window_iff.mpr ⟨n, hle, hlt, hn⟩,
    (hrefuses _ (List.mem_of_getElem? hn)).mpr ⟨n, hn, hdvd⟩⟩, ?_⟩
  rintro other ⟨hother, hrefused⟩
  obtain ⟨m, hle', hlt', hm⟩ := mem_window_iff.mp hother
  obtain ⟨m', hm', hdvd'⟩ := (hrefuses other (List.mem_of_getElem? hm)).mp hrefused
  -- the number of the other channel is in the window and a multiple of ten
  obtain rfl := (List.getElem?_inj (by omega) hnodup).mp (hm.trans hm'.symm)
  obtain rfl : m = n := by omega
  exact Option.some.inj (hm.symm.trans hn)

/-- **Spot checks are fair**, in every run of any number of handlers of both kinds, one effect of
one handler at a time, as long as the numbers do not wrap around. -/
theorem spot_checks_fair {process : Process} (hreach : Reachable overflowChecks lib process)
    (hfew : process.counted.length ≤ 18446744073709551616) :
    Fair overflowChecks lib process := by
  have hn := numbered_of_reachable hreach
  have hrefused : ∀ channel task, process.handlers channel = some task →
      (Refused task ↔ ∃ n, process.counted[n]? = some channel ∧ n % 10 = 0) :=
    fun channel task htask => (hn.phase channel task htask).refused_iff hn.nodup hfew
  refine ⟨fun channel task htask => (hn.phase channel task htask).mem_iff, hn.nodup, hrefused,
    fun channel task htask => (hn.phase channel task htask).notFound,
    fun channel task htask hpaid => ?_,
    fun k hk => window_of_refused_iff hn.nodup (fun channel hmem => ?_) hk,
    fun channel task outcome htask => (hn.phase channel task htask).answered⟩
  · have hnot : channel ∉ process.counted :=
      fun hmem => hpaid ((hn.phase channel task htask).mem_iff.mp hmem).1
    refine ⟨fun h => ?_, hnot⟩
    obtain ⟨n, hmem, -⟩ := (hrefused channel task htask).mp h
    exact hnot (List.mem_of_getElem? hmem)
  · obtain ⟨task, htask⟩ := Option.ne_none_iff_exists'.mp (hn.known channel hmem)
    rw [← hrefused channel task htask]
    constructor
    · rintro ⟨task', htask', h⟩
      exact Option.some.inj (htask'.symm.trans htask) ▸ h
    · exact fun h => ⟨task, htask, h⟩

/-- Unpaid requests, ranges and blobs in turn. -/
def unpaidRequest (channel : ResponseChannel) : InboundRequest :=
  if channel % 2 = 0 then .range ⟨List.Vector.replicate 32 1, 0, 1, zeroBytes32⟩
  else .blob ⟨List.Vector.replicate 32 1, 0, zeroBytes32⟩

/-- They are unpaid. -/
theorem unpaid_unpaidRequest (channel : ResponseChannel) : (unpaidRequest channel).Unpaid := by
  rw [unpaidRequest]
  split <;> rfl

/-- The requests begin one after the other on the channels in order. -/
theorem exists_counted (n : ℕ) : ∃ process, Reachable true sampleExternals process ∧
    process.counted = List.range n ∧ ∀ channel, n ≤ channel → process.handlers channel = none := by
  induction n with
  | zero => exact ⟨initial, Transition.Reachable.of_init rfl, rfl, fun _ _ => rfl⟩
  | succ n ih =>
      obtain ⟨process, hreach, hcounted, hnone⟩ := ih
      have hstarted := hreach.snoc (.start (unpaidRequest n) (hnone n le_rfl))
      rw [handle_of_unpaid (unpaid_unpaidRequest n)] at hstarted
      refine ⟨_, hstarted.snoc (.fetchAdd (Function.update_self ..)), ?_, fun channel hle => ?_⟩
      · rw [List.range_succ, hcounted]
      · have hne : channel ≠ n := by omega
        dsimp only
        rw [Function.update_of_ne hne, Function.update_of_ne hne]
        exact hnone channel (by omega)

/-- A paid request for a blob. -/
def paidBlob : InboundRequest :=
  .blob ⟨List.Vector.replicate 32 1, 0, List.Vector.replicate 32 1⟩

/-- Eleven unpaid requests, and a paid one that is served: of the last ten unpaid ones one is
refused. -/
theorem spot_checks_fair_window : ∃ process : Process, process.counted = List.range 11 ∧
    (∃ task, process.handlers 11 = some task ∧ ¬ Refused task) ∧
    ∃! channel, channel ∈ (process.counted.drop 1).take 10 ∧ process.Refuses channel := by
  obtain ⟨process, hreach, hcounted, hnone⟩ := exists_counted 11
  have hpaid : paidBlob.handle true sampleExternals = .call (.readStore _) _ :=
    handle_of_paid (by decide)
  have hblob := hreach.snoc (.start paidBlob (hnone 11 le_rfl))
  rw [hpaid] at hblob
  have hserved := hblob.snoc (.readStore (.ok (some [1])) (Function.update_self ..))
  generalize hupdated : Function.update (Function.update process.handlers 11 _) 11 _ = handlers
    at hserved
  have htask := (congrFun hupdated 11).symm.trans (Function.update_self ..)
  have hfair := spot_checks_fair hserved (by simp [hcounted])
  exact ⟨⟨process.requestCounter, handlers, process.counted⟩, hcounted,
    ⟨_, htask, (hfair.paid 11 _ htask (by decide)).1⟩,
    hfair.window 1 (by simp [hcounted])⟩

end Process

end ZingCdn
