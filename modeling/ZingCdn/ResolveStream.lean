import ZingCdn.HttpApi
import ZingCdn.Library.Emit

/-!
# The Streamed Resolve

`/api/v1/resolve/stream` resolves a blob and tells its client about the progress: a status for
each layer that is searched, and at last the result or an error. It is written beside
`resolve_blob`, with a read of the cache of its own in front of the resolver.

`resolve_streamed` says how far the two agree. A text that is no blob id is refused by both, in
different words. Otherwise a stream shows a run of the plain resolve: it asks for the same behind
at most one read of the cache that found nothing, its statuses name the layers in the order in
which they are tried (`Progress`), and its last event is what the plain resolve returns. Every
run of the plain resolve is shown by a stream. A stream without a last event belongs to a run in
which the plain resolve panics.

The look into the cache is under the text of the request, where the resolver looks under the own
text of the blob id. A text that the parser accepts besides the own one is a key of its own, and
a stream that finds something there has its result from it.

## Main results

* `Shows.of_runs`: a stream shows a run of the plain resolve.
* `Shows.exists_runs`: every run of the plain resolve is shown.
* `tells_of_lookFinds`: what the look into the cache finds is told.
* `resolve_streamed`: all of it, with the texts that are no blob ids.
-/

open Program Program.Prog

namespace ZingCdn

variable {PeerId : Type}

/-- The events of a stream. -/
inductive StreamEvent
  | status (status layer : String) (source : Option String)
  | result (info : BlobInfo)
  | error (error : String)
deriving DecidableEq

/-- `&source[..2]`, on the names of the sources, which are ASCII. -/
def layerOf (source : String) : String := String.ofList (source.toList.take 2)

namespace HttpApiState

variable [DecidableEq PeerId] (self : HttpApiState PeerId) (lib : Externals PeerId)
  (formats : TextFormats) (blobId : String)

/-- What is done with the result of the resolver. -/
def streamResult (id : BlobId) :
    ZingResult ResolveResult → Prog (EmitAns (@Effect.Ans PeerId) StreamEvent) Unit
  | .error e => emit (.error e.display)
  | .ok result => do
      let source := result.resolution.source
      emit (.status ("Resolved via " ++ source) (layerOf source) (some source))
      match buildBlobInfo formats blobId result.data source result.cached result.paymentError with
      | none => .panic
      | some info => do
          let _ ← quietly (sendCmd (.announceBlob id.bytes))
          emit (.result info)

/-- What is done when the blob is in the cache. -/
def streamCached (id : BlobId) (data : Bytes) :
    Prog (EmitAns (@Effect.Ans PeerId) StreamEvent) Unit :=
  match buildBlobInfo formats blobId data "L0 local cache" true none with
  | none => .panic
  | some info => do
      emit (.result info)
      let _ ← quietly (sendCmd (.announceBlob id.bytes))
      pure ()

/-- What is done when it is not. -/
def streamUncached (id : BlobId) : Prog (EmitAns (@Effect.Ans PeerId) StreamEvent) Unit := do
  emit (.status "Searching P2P network..." "L1" none)
  let result ← quietly (self.resolver.resolve lib id)
  streamResult formats blobId id result

/-- `resolve_blob_with_progress`. -/
def resolveBlobWithProgress : Prog (EmitAns (@Effect.Ans PeerId) StreamEvent) Unit :=
  match formats.parseBlobId blobId with
  | .error e => emit (.error ("invalid blob id: " ++ e))
  | .ok id => do
      emit (.status "Checking local cache..." "L0" none)
      let cached : Except String (Option Bytes) ← quietly (ask (.storeGet blobId))
      match cached with
      | .ok (some data) => streamCached formats blobId id data
      | _ => self.streamUncached lib formats blobId id

end HttpApiState

/-! ### What a stream shows -/

/-- The event in which a resolve ends. -/
def lastEvent : Except String BlobInfo → StreamEvent
  | .ok info => .result info
  | .error e => .error e

/-- What a stream tells its client: the outcome behind the statuses, and nothing but the statuses
when there is none because the resolve panics. -/
structure Tells (t : History (EmitAns (@Effect.Ans PeerId) StreamEvent)) (o : Option Unit)
    (statuses : List StreamEvent) (outcome : Option (Except String BlobInfo)) : Prop where
  ends : o.isSome = outcome.isSome
  tells : emitted t = statuses ++ (outcome.map lastEvent).toList

/-- The status of the look into the cache. -/
def checking : StreamEvent := .status "Checking local cache..." "L0" none

/-- The status of the search. -/
def searching : StreamEvent := .status "Searching P2P network..." "L1" none

/-- The status of a blob that has been found. -/
def resolvedVia (source : String) : StreamEvent :=
  .status ("Resolved via " ++ source) (layerOf source) (some source)

/-- The outcome, if there is one, is a blob from the source. -/
def FoundIn (source : String) (outcome : Option (Except String BlobInfo)) : Prop :=
  ∀ result, outcome = some result → ∃ info, result = .ok info ∧ info.source = source

/-- The statuses before an outcome: the layers in the order in which they are tried, as far as
the run gets. The look may find the blob; the search may end without one; and the source that is
named is the one of the result. -/
inductive Progress : List StreamEvent → Option (Except String BlobInfo) → Prop
  | cached {outcome : Option (Except String BlobInfo)} (found : FoundIn "L0 local cache" outcome) :
      Progress [checking] outcome
  | searched {outcome : Option (Except String BlobInfo)}
      (none : ∀ info, outcome ≠ some (.ok info)) :
      Progress [checking, searching] outcome
  | resolved {outcome : Option (Except String BlobInfo)} (resolution : BlobResolution)
      (found : FoundIn resolution.source outcome) :
      Progress [checking, searching, resolvedVia resolution.source] outcome

/-- The history of a stream shows a run of the plain resolve: it tells its outcome behind the
statuses of its progress, and asks for the same, behind at most one look into the cache that
found nothing. -/
structure Shows (blobId : String) (t : History (EmitAns (@Effect.Ans PeerId) StreamEvent))
    (o : Option Unit) (plain : Trace PeerId) (outcome : Option (Except String BlobInfo)) :
    Prop where
  tells : ∃ statuses, Progress statuses outcome ∧ Tells t o statuses outcome
  asks : asked t = plain ∨ ∃ missed : Except String (Option Bytes),
    (∀ data, missed ≠ .ok (some data)) ∧ asked t = ⟨.storeGet blobId, missed⟩ :: plain

/-- The look into the cache, which is the first thing that a stream asks for, finds the data. -/
def LookFinds (blobId : String) (t : History (EmitAns (@Effect.Ans PeerId) StreamEvent))
    (data : Bytes) : Prop :=
  (asked t).head? = some ⟨.storeGet blobId, (.ok (some data) : Except String (Option Bytes))⟩

section Tells

variable {t t' : History (EmitAns (@Effect.Ans PeerId) StreamEvent)} {o : Option Unit}
  {statuses : List StreamEvent} {outcome : Option (Except String BlobInfo)}

/-- A status in front. -/
theorem Tells.status (h : Tells t o statuses outcome) (ev : StreamEvent) :
    Tells (⟨.inr ev, ()⟩ :: t) o (ev :: statuses) outcome :=
  ⟨h.ends, congrArg (ev :: ·) h.tells⟩

/-- Silence in front. -/
theorem Tells.quiet (h : Tells t o statuses outcome) (hquiet : emitted t' = []) :
    Tells (t' ++ t) o statuses outcome :=
  ⟨h.ends, by rw [emitted_append, hquiet, List.nil_append, h.tells]⟩

/-- The outcome itself. -/
theorem tells_last {result : Except String BlobInfo} (hemitted : emitted t = [lastEvent result]) :
    Tells t (some ()) [] (some result) :=
  ⟨rfl, hemitted⟩

/-- Nothing, when the resolve panics. -/
theorem tells_nothing (hemitted : emitted t = []) : Tells t none [] none :=
  ⟨rfl, hemitted⟩

/-- What is described names its source. -/
theorem foundIn_buildBlobInfo (formats : TextFormats) (blobId : String) (data : Bytes)
    (source : String) (cached : Bool) (paymentError : Option String) :
    FoundIn source ((buildBlobInfo formats blobId data source cached paymentError).map .ok) := by
  intro result hresult
  obtain ⟨info, hinfo, rfl⟩ := Option.map_eq_some_iff.mp hresult
  refine ⟨info, rfl, ?_⟩
  rw [buildBlobInfo] at hinfo
  split at hinfo
  · cases hinfo
  · rw [← Option.some.inj hinfo]

/-- One effect that is asked for in silence. -/
theorem runs_quietly_ask {e : Effect PeerId} {r : Option e.Ans}
    (h : (quietly (ask e) : Prog (EmitAns (@Effect.Ans PeerId) StreamEvent) e.Ans).Runs t r) :
    ∃ a, r = some a ∧ asked t = [⟨e, a⟩] ∧ emitted t = [] := by
  obtain ⟨hrun, hquiet⟩ := h.of_quietly
  obtain ⟨a, t', hasked, hrest⟩ := runs_call_iff.mp hrun
  obtain ⟨rfl, rfl⟩ := runs_ret_iff.mp hrest
  exact ⟨a, rfl, hasked, hquiet⟩

end Tells

/-! ### The result of the resolver -/

section Agreement

variable {self : HttpApiState PeerId} {lib : Externals PeerId}
  {formats : TextFormats} {blobId : String} {id : BlobId} {result : ZingResult ResolveResult}
  {t : History (EmitAns (@Effect.Ans PeerId) StreamEvent)} {o : Option Unit}
  {plain : Trace PeerId} {outcome : Option (Except String BlobInfo)}

/-- What `resolve_blob` does with it. -/
def plainResult (formats : TextFormats) (blobId : String) (id : BlobId) :
    ZingResult ResolveResult → Action PeerId (Except String BlobInfo)
  | .error e => pure (.error e.display)
  | .ok result =>
      match buildBlobInfo formats blobId result.data result.resolution.source result.cached
        result.paymentError with
      | none => .panic
      | some info => do
          let _ ← sendCmd (.announceBlob id.bytes)
          pure (.ok info)

theorem resolveBlob_eq [DecidableEq PeerId] (hid : formats.parseBlobId blobId = .ok id) :
    self.resolveBlob lib formats blobId
      = self.resolver.resolve lib id >>= plainResult formats blobId id := by
  rw [HttpApiState.resolveBlob, hid]
  refine congrArg (Prog.bind _) (funext fun result => ?_)
  rcases result with e | result <;> rfl

/-- What a stream tells of the result of the resolver, behind the statuses of the search. -/
theorem tells_streamResult
    (hrun : (HttpApiState.streamResult formats blobId id result).Runs t o) :
    ∃ statuses outcome, (plainResult formats blobId id result).Runs (asked t) outcome ∧
      Tells t o statuses outcome ∧ Progress (checking :: searching :: statuses) outcome := by
  rcases result with e | result
  · obtain ⟨rfl, rfl⟩ := runs_emit_iff.mp hrun
    exact ⟨[], some (.error e.display), .ret _, tells_last rfl, .searched nofun⟩
  · obtain ⟨t', rfl, hrest⟩ := runs_emit_bind_iff.mp hrun
    have hfound := foundIn_buildBlobInfo formats blobId result.data result.resolution.source
      result.cached result.paymentError
    have hprogress := Progress.resolved result.resolution hfound
    rw [plainResult]
    rcases hinfo : buildBlobInfo formats blobId result.data result.resolution.source result.cached
      result.paymentError with _ | info
    · rw [hinfo] at hrest hprogress
      obtain ⟨rfl, rfl⟩ := runs_panic_iff.mp hrest
      exact ⟨_, none, .panic, (tells_nothing rfl).status _, hprogress⟩
    · rw [hinfo] at hrest hprogress
      rcases hrest.bind_cases with ⟨hpanic, -⟩ | ⟨t₁, sent, t₂, rfl, hsend, hlast⟩
      · obtain ⟨r, hnone, -⟩ := runs_quietly_ask hpanic
        cases hnone
      · obtain ⟨_, -, hasked, hquiet⟩ := runs_quietly_ask hsend
        obtain ⟨rfl, rfl⟩ := runs_emit_iff.mp hlast
        refine ⟨_, some (.ok info), ?_, ((tells_last rfl).quiet hquiet).status _, hprogress⟩
        show Runs _ (asked (t₁ ++ _)) _
        rw [asked_append, hasked]
        exact .call _ (.ret _)

/-- Every way to go on with the result is told. -/
theorem exists_runs_streamResult
    (hrun : (plainResult formats blobId id result).Runs plain outcome) :
    ∃ t o statuses, (HttpApiState.streamResult formats blobId id result).Runs t o ∧
      asked t = plain ∧ Tells t o statuses outcome ∧
        Progress (checking :: searching :: statuses) outcome := by
  rcases result with e | result
  · obtain ⟨rfl, rfl⟩ := runs_ret_iff.mp hrun
    exact ⟨_, _, [], runs_emit_iff.mpr ⟨rfl, rfl⟩, rfl, tells_last rfl, .searched nofun⟩
  · have hfound := foundIn_buildBlobInfo formats blobId result.data result.resolution.source
      result.cached result.paymentError
    have hprogress := Progress.resolved result.resolution hfound
    rw [plainResult] at hrun
    simp only [HttpApiState.streamResult, runs_emit_bind_iff]
    rcases hinfo : buildBlobInfo formats blobId result.data result.resolution.source result.cached
      result.paymentError with _ | info
    · rw [hinfo] at hrun hprogress
      obtain ⟨rfl, rfl⟩ := runs_panic_iff.mp hrun
      exact ⟨_, none, _, ⟨[], rfl, .panic⟩, rfl, (tells_nothing rfl).status _, hprogress⟩
    · rw [hinfo] at hrun hprogress
      obtain ⟨sent, t', rfl, hrest⟩ := runs_call_iff.mp hrun
      obtain ⟨rfl, rfl⟩ := runs_ret_iff.mp hrest
      have hsend : (quietly (sendCmd (.announceBlob id.bytes)) :
          Prog (EmitAns (@Effect.Ans PeerId) StreamEvent) Bool).Runs _ (some sent) :=
        runs_quietly (.call sent (.ret _))
      exact ⟨_, some (), _,
        ⟨_, rfl, (Runs.append_bind_iff hsend).mpr (runs_emit_iff.mpr ⟨rfl, rfl⟩)⟩, rfl,
        ((tells_last rfl).quiet rfl).status _, hprogress⟩

/-! ### The look into the cache -/

/-- What a stream tells of the data that it finds in the cache, and what the plain resolve does
with the same data. -/
theorem tells_streamCached {data : Bytes}
    (hrun : (HttpApiState.streamCached formats blobId id data).Runs t o) :
    ∃ outcome, outcome = (buildBlobInfo formats blobId data "L0 local cache" true none).map .ok ∧
      (plainResult formats blobId id (.ok ⟨data, .localCache, true, none⟩)).Runs (asked t) outcome ∧
        Tells t o [] outcome := by
  rw [HttpApiState.streamCached] at hrun
  rw [plainResult]
  rcases hinfo : buildBlobInfo formats blobId data "L0 local cache" true none with _ | info
  · rw [hinfo] at hrun
    obtain ⟨rfl, rfl⟩ := runs_panic_iff.mp hrun
    refine ⟨none, rfl, ?_, tells_nothing rfl⟩
    rw [show buildBlobInfo formats blobId data BlobResolution.localCache.source true none = none
      from hinfo]
    exact .panic
  · rw [hinfo] at hrun
    obtain ⟨t', rfl, hrest⟩ := runs_emit_bind_iff.mp hrun
    rcases hrest.bind_cases with ⟨hpanic, -⟩ | ⟨t₁, sent, t₂, rfl, hsend, hlast⟩
    · obtain ⟨r, hnone, -⟩ := runs_quietly_ask hpanic
      cases hnone
    · obtain ⟨_, -, hasked, hquiet⟩ := runs_quietly_ask hsend
      obtain ⟨rfl, rfl⟩ := runs_ret_iff.mp hlast
      refine ⟨some (.ok info), rfl, ?_, tells_last ?_⟩
      · show Runs _ (asked (t₁ ++ [])) _
        rw [asked_append, hasked,
          show buildBlobInfo formats blobId data BlobResolution.localCache.source true none
            = some info from hinfo]
        exact .call _ (.ret _)
      · show _ :: emitted (t₁ ++ []) = _
        rw [emitted_append, hquiet]
        rfl

variable [DecidableEq PeerId]

/-- A resolve that finds the blob in the cache. -/
theorem runs_resolve_hit {data : Bytes} :
    (self.resolver.resolve lib id).Runs [⟨.storeGet (lib.blobIdToString id),
      (.ok (some data) : Except String (Option Bytes))⟩]
      (some (.ok ⟨data, .localCache, true, none⟩)) :=
  .call _ (.ret _)

/-- What a stream tells of a search. -/
theorem tells_streamUncached (hid : formats.parseBlobId blobId = .ok id)
    (hrun : (self.streamUncached lib formats blobId id).Runs t o) :
    ∃ statuses outcome, (self.resolveBlob lib formats blobId).Runs (asked t) outcome ∧
      Tells t o statuses outcome ∧ Progress (checking :: statuses) outcome := by
  rw [resolveBlob_eq hid]
  obtain ⟨t', rfl, hrest⟩ := runs_emit_bind_iff.mp hrun
  rcases hrest.bind_cases with ⟨hpanic, rfl⟩ | ⟨t₁, result, t₂, rfl, hresolve, hlast⟩
  · obtain ⟨hresolve, hquiet⟩ := hpanic.of_quietly
    exact ⟨_, none, hresolve.bind_panic _, (tells_nothing hquiet).status _, .searched nofun⟩
  · obtain ⟨hresolve, hquiet⟩ := hresolve.of_quietly
    obtain ⟨statuses, outcome, hplain, htells, hprogress⟩ := tells_streamResult hlast
    refine ⟨_, outcome, ?_, (htells.quiet hquiet).status _, hprogress⟩
    show Runs _ (asked (t₁ ++ t₂)) _
    rw [asked_append]
    exact hresolve.append_bind_iff.mpr hplain

/-- **The look of a stream into the cache**: it finds the blob, or the search comes behind it. -/
theorem look_cases (hid : formats.parseBlobId blobId = .ok id)
    (hrun : (self.resolveBlobWithProgress lib formats blobId).Runs t o) :
    ∃ t₁ cached t₂, t = ⟨.inr checking, ()⟩ :: (t₁ ++ t₂) ∧ emitted t₁ = [] ∧
      asked t = ⟨.storeGet blobId, cached⟩ :: asked t₂ ∧
      ((∃ data, cached = .ok (some data) ∧
          (HttpApiState.streamCached formats blobId id data).Runs t₂ o) ∨
        ((∀ data, cached ≠ .ok (some data)) ∧
          (self.streamUncached lib formats blobId id).Runs t₂ o)) := by
  rw [HttpApiState.resolveBlobWithProgress, hid] at hrun
  obtain ⟨t', rfl, hget⟩ := runs_emit_bind_iff.mp hrun
  rcases hget.bind_cases with ⟨hpanic, -⟩ | ⟨t₁, cached, t₂, rfl, hget, hrest⟩
  · obtain ⟨r, hnone, -⟩ := runs_quietly_ask hpanic
    cases hnone
  obtain ⟨_, heq, hasked, hquiet⟩ := runs_quietly_ask hget
  obtain rfl := Option.some.inj heq
  refine ⟨t₁, cached, t₂, rfl, hquiet, ?_, ?_⟩
  · show asked (t₁ ++ t₂) = _
    rw [asked_append, hasked]
    rfl
  · rcases cached with e | _ | data
    · exact .inr ⟨nofun, hrest⟩
    · exact .inr ⟨nofun, hrest⟩
    · exact .inl ⟨data, rfl, hrest⟩

/-! ### Agreement -/

/-- **A stream shows a run of the plain resolve**, unless the cache has something under a text
that is not the own one of the blob id. -/
theorem Shows.of_runs (hid : formats.parseBlobId blobId = .ok id)
    (hrun : (self.resolveBlobWithProgress lib formats blobId).Runs t o)
    (hown : lib.blobIdToString id = blobId ∨ ∀ data, ¬LookFinds blobId t data) :
    ∃ plain outcome, (self.resolveBlob lib formats blobId).Runs plain outcome ∧
      Shows blobId t o plain outcome := by
  obtain ⟨t₁, cached, t₂, rfl, hquiet, hasked, ⟨data, rfl, hhit⟩ | ⟨hmissed, huncached⟩⟩ :=
    look_cases hid hrun
  · have hcanonical : lib.blobIdToString id = blobId :=
      hown.resolve_right fun hnone => hnone data (congrArg List.head? hasked)
    obtain ⟨outcome, rfl, hplain, htells⟩ := tells_streamCached hhit
    refine ⟨_, _, ?_, ⟨_, .cached (foundIn_buildBlobInfo _ _ _ _ _ _),
      (htells.quiet hquiet).status _⟩, .inl rfl⟩
    rw [hasked, resolveBlob_eq hid, ← hcanonical]
    rw [← hcanonical] at hplain
    exact (Runs.append_bind_iff (t := [_]) runs_resolve_hit).mpr hplain
  · obtain ⟨statuses, outcome, hplain, htells, hprogress⟩ := tells_streamUncached hid huncached
    exact ⟨asked t₂, outcome, hplain, ⟨_, hprogress, (htells.quiet hquiet).status _⟩,
      .inr ⟨cached, hmissed, hasked⟩⟩

/-- **What the look finds is told**, under whatever text. -/
theorem tells_of_lookFinds (hid : formats.parseBlobId blobId = .ok id)
    (hrun : (self.resolveBlobWithProgress lib formats blobId).Runs t o) {data : Bytes}
    (hfinds : LookFinds blobId t data) :
    Tells t o [checking]
      ((buildBlobInfo formats blobId data "L0 local cache" true none).map .ok) := by
  obtain ⟨t₁, cached, t₂, rfl, hquiet, hasked, hlook⟩ := look_cases hid hrun
  rw [LookFinds, hasked] at hfinds
  obtain ⟨-, hcached⟩ := Sigma.mk.inj (Option.some.inj hfinds)
  obtain rfl := eq_of_heq hcached
  obtain ⟨data', hdata, hhit⟩ | ⟨hmissed, -⟩ := hlook
  · obtain rfl := Option.some.inj (Except.ok.inj hdata)
    obtain ⟨outcome, rfl, -, htells⟩ := tells_streamCached hhit
    exact (htells.quiet hquiet).status checking
  · exact absurd rfl (hmissed data)

/-- **Every run of the plain resolve is shown**: the read of the cache in front of it may have
missed. -/
theorem Shows.exists_runs (hid : formats.parseBlobId blobId = .ok id)
    (hrun : (self.resolveBlob lib formats blobId).Runs plain outcome) :
    ∃ t o, (self.resolveBlobWithProgress lib formats blobId).Runs t o ∧
      Shows blobId t o plain outcome := by
  rw [resolveBlob_eq hid] at hrun
  have huncached : ∃ t o statuses, (self.streamUncached lib formats blobId id).Runs t o ∧
      asked t = plain ∧ Tells t o statuses outcome ∧ Progress (checking :: statuses) outcome := by
    simp only [HttpApiState.streamUncached, runs_emit_bind_iff]
    rcases hrun.bind_cases with ⟨hpanic, rfl⟩ | ⟨t₁, result, t₂, rfl, hresolve, hlast⟩
    · exact ⟨_, none, _, ⟨_, rfl, (runs_quietly hpanic).bind_panic _⟩, asked_map_asking plain,
        (tells_nothing (emitted_map_asking plain)).status _, .searched nofun⟩
    · obtain ⟨t, o, statuses, hstream, rfl, htells, hprogress⟩ := exists_runs_streamResult hlast
      refine ⟨_, o, _, ⟨_, rfl, (runs_quietly hresolve).append_bind_iff.mpr hstream⟩, ?_,
        (htells.quiet (emitted_map_asking t₁)).status _, hprogress⟩
      show asked (t₁.map asking ++ t) = _
      rw [asked_append, asked_map_asking]
  obtain ⟨t, o, statuses, hstream, hasked, htells, hprogress⟩ := huncached
  let look : Trace PeerId := [⟨.storeGet blobId, (.ok none : Except String (Option Bytes))⟩]
  have hget : (quietly (ask (.storeGet blobId)) :
      Prog (EmitAns (@Effect.Ans PeerId) StreamEvent) (Except String (Option Bytes))).Runs
      (look.map asking) (some (.ok none)) := runs_quietly (.call _ (.ret _))
  have hstart : (self.resolveBlobWithProgress lib formats blobId).Runs
      (⟨.inr checking, ()⟩ :: (look.map asking ++ t)) o := by
    rw [HttpApiState.resolveBlobWithProgress, hid]
    exact runs_emit_bind_iff.mpr ⟨_, rfl, hget.append_bind_iff.mpr hstream⟩
  exact ⟨_, o, hstart, ⟨_, hprogress, (htells.quiet (emitted_map_asking look)).status _⟩,
    .inr ⟨.ok none, by simp, hasked ▸ rfl⟩⟩

/-! ### Texts that are no blob ids -/

/-- The plain resolve refuses them, with the text in its error. -/
theorem runs_resolveBlob_invalid {e : String} (hid : formats.parseBlobId blobId = .error e) :
    (self.resolveBlob lib formats blobId).Runs plain outcome ↔
      plain = [] ∧ outcome = some (.error ("invalid blob id: " ++ blobId ++ ": " ++ e)) := by
  rw [HttpApiState.resolveBlob, hid]
  exact runs_ret_iff

/-- A stream refuses them, without it. -/
theorem runs_resolveBlobWithProgress_invalid {e : String}
    (hid : formats.parseBlobId blobId = .error e) :
    (self.resolveBlobWithProgress lib formats blobId).Runs t o ↔
      t = [⟨.inr (.error ("invalid blob id: " ++ e)), ()⟩] ∧ o = some () := by
  rw [HttpApiState.resolveBlobWithProgress, hid]
  exact runs_emit_iff

/-- **The streamed resolve and the plain one**, for every text. A text that is no blob id is
refused by both at once, and only the plain resolve says the text. For any other, what the look
of a stream finds is told; a stream shows a run of the plain resolve, unless its look finds
something under a text that is not the own one of the blob id; and every run of the plain
resolve is shown. -/
theorem resolve_streamed (self : HttpApiState PeerId) (lib : Externals PeerId)
    (formats : TextFormats) (blobId : String) :
    (∀ e, formats.parseBlobId blobId = .error e →
      (∀ plain outcome, (self.resolveBlob lib formats blobId).Runs plain outcome ↔
        plain = [] ∧ outcome = some (.error ("invalid blob id: " ++ blobId ++ ": " ++ e))) ∧
      ∀ t o, (self.resolveBlobWithProgress lib formats blobId).Runs t o ↔
        t = [⟨.inr (.error ("invalid blob id: " ++ e)), ()⟩] ∧ o = some ()) ∧
    ∀ id, formats.parseBlobId blobId = .ok id →
      (∀ t o, (self.resolveBlobWithProgress lib formats blobId).Runs t o →
        (∀ data, LookFinds blobId t data → Tells t o [checking]
          ((buildBlobInfo formats blobId data "L0 local cache" true none).map .ok)) ∧
        ((lib.blobIdToString id = blobId ∨ ∀ data, ¬LookFinds blobId t data) →
          ∃ plain outcome, (self.resolveBlob lib formats blobId).Runs plain outcome ∧
            Shows blobId t o plain outcome)) ∧
      ∀ plain outcome, (self.resolveBlob lib formats blobId).Runs plain outcome →
        ∃ t o, (self.resolveBlobWithProgress lib formats blobId).Runs t o ∧
          Shows blobId t o plain outcome :=
  ⟨fun _ hid => ⟨fun _ _ => runs_resolveBlob_invalid hid,
      fun _ _ => runs_resolveBlobWithProgress_invalid hid⟩,
    fun _ hid => ⟨fun _ _ hrun => ⟨fun _ hfinds => tells_of_lookFinds hid hrun hfinds,
        Shows.of_runs hid hrun⟩,
      fun _ _ hrun => Shows.exists_runs hid hrun⟩⟩

end Agreement

/-- A stream that finds the blob in the cache shows a plain resolve that does, and a stream of a
text that is no blob id ends at once. -/
theorem resolve_streamed_cached :
    (∃ plain info, (HttpApiState.resolveBlob ⟨0, none⟩ sampleExternals sampleFormats
        sampleKey).Runs plain (some (.ok info)) ∧ info.source = "L0 local cache") ∧
      (HttpApiState.resolveBlobWithProgress ⟨0, none⟩ sampleExternals sampleFormats "blob").Runs
        [⟨.inr (.error "invalid blob id: invalid length"), ()⟩] (some ()) := by
  have hstreamed : (∀ e, sampleFormats.parseBlobId "blob" = .error e → _ ∧ ∀ t o, _ ↔ _) ∧ _ :=
    resolve_streamed ⟨0, none⟩ sampleExternals sampleFormats "blob"
  have hcached : _ ∧ ∀ id, sampleFormats.parseBlobId sampleKey = .ok id →
      (∀ t o, _ → _ ∧ (_ → ∃ plain outcome, _ ∧ Shows sampleKey t o plain outcome)) ∧ _ :=
    resolve_streamed ⟨0, none⟩ sampleExternals sampleFormats sampleKey
  have hrun : (HttpApiState.resolveBlobWithProgress ⟨0, none⟩ sampleExternals sampleFormats
      sampleKey).Runs
      [⟨.inr checking, ()⟩,
        ⟨.inl (.storeGet sampleKey), (.ok (some [1]) : Except String (Option Bytes))⟩,
        ⟨.inr (.result _), ()⟩, ⟨.inl (.send (.announceBlob (sampleBlobId [1]).bytes)), true⟩]
      (some ()) :=
    .call _ (.call _ (.call _ (.call _ (.ret _))))
  refine ⟨?_, (hstreamed.1 _ rfl).2 _ _ |>.mpr ⟨rfl, rfl⟩⟩
  obtain ⟨plain, outcome, hplain, ⟨statuses, hprogress, htells⟩, -⟩ :=
    ((hcached.2 _ rfl).1 _ _ hrun).2 (.inl rfl)
  -- the second event is the result, so that there is a single status before it
  cases hprogress with
  | cached hfound =>
      obtain ⟨result, rfl⟩ := Option.isSome_iff_exists.mp htells.ends.symm
      obtain ⟨info, rfl, hsource⟩ := hfound result rfl
      exact ⟨plain, info, hplain, hsource⟩
  | searched => cases htells.tells
  | resolved => cases htells.tells

end ZingCdn
