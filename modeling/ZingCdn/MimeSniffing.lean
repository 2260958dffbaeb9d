import ZingCdn.HttpApi

/-!
# Sniffing the Kind of a Blob

The HTTP API of the node and that of the desktop application each tell the kind of a blob from
its first bytes, by rules of their own, and describe it for the response by the same ones. Both
look for `WEBP` at bytes 8 to 12 of data that starts with `RIFF`, and both slice for it as soon
as there are more than eight bytes: with nine, ten or eleven the slice is out of bounds, and the
request that resolved the blob panics.

## Main results

* `sniffing_safe_iff`: the blobs whose response is built.
-/

open Program Program.Prog

namespace ZingCdn

/-- `build_blobinfo` over a detection of the kind; nothing when that panics. -/
def blobInfoWith (detect : Bytes → Option String) (formats : TextFormats) (blobId : String)
    (data : Bytes) (source : String) (cached : Bool) (paymentError : Option String) :
    Option BlobInfo :=
  match detect data with
  | none => none
  | some mimeType =>
      let (content, dataBase64) :=
        if mimeType.startsWith "image/" then
          ("[Binary image — " ++ toString data.length ++ " bytes]", formats.base64Encode data)
        else if 2000 < data.length then (fromUtf8Lossy (data.take 2000) ++ "...", "")
        else (fromUtf8Lossy data, "")
      some ⟨blobId, data.length, source, cached, content, mimeType, dataBase64, paymentError⟩

/-! ### The desktop application -/

namespace Gui

/-- `detect_mime` of the desktop application. The slice `data[8..12]` panics when the data is
shorter. -/
def detectMime (data : Bytes) : Option String :=
  if data.length < 4 then some "application/octet-stream"
  else if [0x89, 0x50, 0x4E, 0x47] <+: data then some "image/png"
  else if [0xFF, 0xD8, 0xFF] <+: data then some "image/jpeg"
  else if [0x47, 0x49, 0x46, 0x38] <+: data then some "image/gif"
  else if 8 < data.length ∧ data.take 4 = asciiBytes "RIFF" then
    if data.length < 12 then none
    else if (data.drop 8).take 4 = asciiBytes "WEBP" then some "image/webp"
    else some "text/plain"
  else some "text/plain"

/-- `build_blobinfo` of the desktop application. -/
def buildBlobInfo : TextFormats → String → Bytes → String → Bool → Option String →
    Option BlobInfo :=
  blobInfoWith detectMime

/-- `resolve_blob` of the desktop application, which describes the blob in its own body. -/
def resolveBlob {PeerId : Type} [DecidableEq PeerId] (self : HttpApiState PeerId)
    (lib : Externals PeerId) (formats : TextFormats) (blobId : String) :
    Action PeerId (Except String BlobInfo) :=
  match formats.parseBlobId blobId with
  | .error e => pure (.error ("invalid blob id: " ++ blobId ++ ": " ++ e))
  | .ok id => do
      let result ← self.resolver.resolve lib id
      match result with
      | .error e => pure (.error e.display)
      | .ok result =>
          match blobInfoWith detectMime formats blobId result.data result.resolution.source
            result.cached result.paymentError with
          | none => .panic
          | some info => do
              let _ ← sendCmd (.announceBlob id.bytes)
              pure (.ok info)

end Gui

/-! ### When the detection panics -/

/-- Data that starts like a WebP image and ends before its kind does. -/
def ShortRiff (data : Bytes) : Prop :=
  asciiBytes "RIFF" <+: data ∧ 9 ≤ data.length ∧ data.length ≤ 11

/-- Such data starts with no other byte than `R`. -/
theorem ShortRiff.not_prefix {data : Bytes} (h : ShortRiff data) {b : UInt8} {bs : Bytes}
    (hb : b ≠ 0x52) : ¬(b :: bs) <+: data := by
  obtain ⟨⟨rest, rfl⟩, -⟩ := h
  rintro ⟨rest', hsame⟩
  exact hb (List.cons.inj hsame).1

theorem riff_take_iff {data : Bytes} :
    data.take 4 = asciiBytes "RIFF" ↔ asciiBytes "RIFF" <+: data := by
  have hfour : (asciiBytes "RIFF").length = 4 := rfl
  rw [List.prefix_iff_eq_take, hfour]
  exact eq_comm

/-- The last test of both detections. -/
theorem webp_eq_none_iff {data : Bytes} :
    (if 8 < data.length ∧ data.take 4 = asciiBytes "RIFF" then
      if data.length < 12 then none
      else if (data.drop 8).take 4 = asciiBytes "WEBP" then some "image/webp"
      else some "text/plain"
    else some "text/plain") = none ↔ ShortRiff data := by
  by_cases hriff : 8 < data.length ∧ data.take 4 = asciiBytes "RIFF"
  · have hfront := riff_take_iff.mp hriff.2
    rw [if_pos hriff]
    by_cases hshort : data.length < 12
    · rw [if_pos hshort]
      exact iff_of_true rfl ⟨hfront, hriff.1, by omega⟩
    · rw [if_neg hshort]
      refine iff_of_false ?_ fun h => hshort (Nat.lt_succ_of_le h.2.2)
      split <;> exact Option.some_ne_none _
  · rw [if_neg hriff]
    refine iff_of_false (Option.some_ne_none _) fun h => hriff ?_
    exact ⟨h.2.1, riff_take_iff.mpr h.1⟩

/-- A test for another kind does not matter to when the detection panics. -/
theorem ite_some_eq_none_iff {c : Prop} [Decidable c] {kind : String} {rest : Option String}
    {P : Prop} (hc : P → ¬c) (hrest : rest = none ↔ P) :
    (if c then some kind else rest) = none ↔ P := by
  split
  · rename_i h
    exact iff_of_false (Option.some_ne_none _) fun hP => hc hP h
  · exact hrest

/-- The tests that both detections make behind their first one. -/
theorem magics_eq_none_iff {data png : Bytes} {c : Prop} [Decidable c] {kind : String}
    (hc : ShortRiff data → ¬c) :
    (if c then some kind
    else if 0x89 :: png <+: data then some "image/png"
    else if [0xFF, 0xD8, 0xFF] <+: data then some "image/jpeg"
    else if [0x47, 0x49, 0x46, 0x38] <+: data then some "image/gif"
    else if 8 < data.length ∧ data.take 4 = asciiBytes "RIFF" then
      if data.length < 12 then none
      else if (data.drop 8).take 4 = asciiBytes "WEBP" then some "image/webp"
      else some "text/plain"
    else some "text/plain") = none ↔ ShortRiff data := by
  refine ite_some_eq_none_iff hc <| ite_some_eq_none_iff (fun h => ?_) <|
    ite_some_eq_none_iff (fun h => ?_) <| ite_some_eq_none_iff (fun h => ?_) webp_eq_none_iff
  · exact h.not_prefix (by decide)
  · exact h.not_prefix (by decide)
  · exact h.not_prefix (by decide)

theorem detectMime_eq_none_iff {data : Bytes} : detectMime data = none ↔ ShortRiff data := by
  refine magics_eq_none_iff fun h => ?_
  rintro ⟨hbrace | hbracket | hangle, -⟩
  · exact h.not_prefix (by decide) hbrace
  · exact h.not_prefix (by decide) hbracket
  · exact h.not_prefix (by decide) hangle

theorem Gui.detectMime_eq_none_iff {data : Bytes} :
    Gui.detectMime data = none ↔ ShortRiff data := by
  refine magics_eq_none_iff fun h => ?_
  have := h.2.1
  omega

/-! ### Building the response -/

section Response

variable {PeerId : Type} {formats : TextFormats}

/-- The description is built when the kind is told. -/
theorem blobInfoWith_isSome {detect : Bytes → Option String} {data : Bytes} {blobId source : String}
    {cached : Bool} {paymentError : Option String} :
    (blobInfoWith detect formats blobId data source cached paymentError).isSome =
      (detect data).isSome := by
  rw [blobInfoWith]
  cases detect data <;> rfl

theorem buildBlobInfo_eq : buildBlobInfo = blobInfoWith detectMime := rfl

/-- Behind its resolve, a request that can build the response does not panic. -/
theorem not_runs_none_of_isSome {id : BlobId} {info : Option BlobInfo} (hinfo : info.isSome)
    {t : Trace PeerId} :
    ¬Runs (match info with
      | none => .panic
      | some info => (do
          let _ ← sendCmd (.announceBlob id.bytes)
          pure (.ok info) : Action PeerId (Except String BlobInfo))) t none := by
  obtain ⟨built, rfl⟩ := Option.isSome_iff_exists.mp hinfo
  intro hrun
  obtain ⟨_, _, -, hend⟩ := runs_call_iff.mp hrun
  cases (runs_ret_iff.mp hend).2

/-- **Which blobs are described**: both detections return, both descriptions are built, and no
request that resolved the blob panics behind its resolve, unless the blob starts like a WebP
image and has nine, ten or eleven bytes. -/
theorem sniffing_safe_iff [DecidableEq PeerId] (lib : Externals PeerId) (formats : TextFormats)
    (data : Bytes) :
    ((detectMime data).isSome ∧ (Gui.detectMime data).isSome ∧
      (∀ blobId source cached paymentError,
        (buildBlobInfo formats blobId data source cached paymentError).isSome ∧
        (Gui.buildBlobInfo formats blobId data source cached paymentError).isSome) ∧
      ∀ (state : HttpApiState PeerId) (text : String) (id : BlobId) (t : Trace PeerId)
        (result : ResolveResult), formats.parseBlobId text = .ok id →
        (state.resolver.resolve lib id).Runs t (some (.ok result)) → result.data = data →
        ∀ t', ¬(state.resolveBlob lib formats text).Runs (t ++ t') none ∧
          ¬(Gui.resolveBlob state lib formats text).Runs (t ++ t') none) ↔
    ¬(asciiBytes "RIFF" <+: data ∧ 9 ≤ data.length ∧ data.length ≤ 11) := by
  constructor
  · rintro ⟨hdetect, -⟩ hshort
    rw [detectMime_eq_none_iff.mpr hshort] at hdetect
    cases hdetect
  · intro hshort
    have hnode : (detectMime data).isSome :=
      Option.isSome_iff_ne_none.mpr fun h => hshort (detectMime_eq_none_iff.mp h)
    have hgui : (Gui.detectMime data).isSome :=
      Option.isSome_iff_ne_none.mpr fun h => hshort (Gui.detectMime_eq_none_iff.mp h)
    refine ⟨hnode, hgui, fun blobId source cached paymentError => ⟨?_, ?_⟩,
      fun state text id t result hparse hresolve hdata t' => ⟨fun hrun => ?_, fun hrun => ?_⟩⟩
    · rwa [buildBlobInfo_eq, blobInfoWith_isSome]
    · rwa [Gui.buildBlobInfo, blobInfoWith_isSome]
    · simp only [HttpApiState.resolveBlob, hparse] at hrun
      refine not_runs_none_of_isSome ?_ ((Runs.append_bind_iff hresolve).mp hrun)
      rwa [buildBlobInfo_eq, blobInfoWith_isSome, hdata]
    · simp only [Gui.resolveBlob, hparse] at hrun
      refine not_runs_none_of_isSome ?_ ((Runs.append_bind_iff hresolve).mp hrun)
      rwa [blobInfoWith_isSome, hdata]

end Response

/-- The nine bytes `RIFFabcde`: both detections panic. -/
theorem riff_of_nine_bytes :
    detectMime (asciiBytes "RIFFabcde") = none ∧ Gui.detectMime (asciiBytes "RIFFabcde") = none :=
  ⟨detectMime_eq_none_iff.mpr ⟨⟨asciiBytes "abcde", rfl⟩, by decide, by decide⟩,
    Gui.detectMime_eq_none_iff.mpr ⟨⟨asciiBytes "abcde", rfl⟩, by decide, by decide⟩⟩

end ZingCdn
