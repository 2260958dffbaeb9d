import ZingCdn.Resolver

/-!
# The Resolve Request of the HTTP API

`resolve_blob`: the request resolves the blob, describes it for the response, and announces
it to the DHT. The description tells the kind of the data from its first bytes and shows text
as text, where invalid UTF-8 is replaced (`String::from_utf8_lossy`).

The text format of blob ids and the base64 encoding are functions of libraries.
-/

open Program Program.Prog

namespace ZingCdn

variable {PeerId : Type}

/-! ### Text -/

/-- A UTF-8 character in the middle: the bytes still missing, the bounds of the next one, and
the value so far. -/
structure Utf8Pending where
  missing : ℕ
  low : UInt8
  high : UInt8
  value : ℕ
deriving DecidableEq

/-- What the first byte of a longer character announces. -/
def utf8Lead (b : UInt8) : Option Utf8Pending :=
  if 0xC2 ≤ b ∧ b ≤ 0xDF then some ⟨1, 0x80, 0xBF, b.toNat - 0xC0⟩
  else if b = 0xE0 then some ⟨2, 0xA0, 0xBF, 0⟩
  else if b = 0xED then some ⟨2, 0x80, 0x9F, 0xD⟩
  else if 0xE1 ≤ b ∧ b ≤ 0xEF then some ⟨2, 0x80, 0xBF, b.toNat - 0xE0⟩
  else if b = 0xF0 then some ⟨3, 0x90, 0xBF, 0⟩
  else if 0xF1 ≤ b ∧ b ≤ 0xF3 then some ⟨3, 0x80, 0xBF, b.toNat - 0xF0⟩
  else if b = 0xF4 then some ⟨3, 0x80, 0x8F, 4⟩
  else none

/-- The replacement character. -/
def replacementChar : Char := Char.ofNat 0xFFFD

/-- The characters of some bytes, after the pending one. A character that is cut off is
replaced, and the byte that cuts it off starts anew. -/
def lossyChars : Option Utf8Pending → Bytes → List Char
  | none, [] => []
  | some _, [] => [replacementChar]
  | pending, b :: rest =>
      let anew : List Char :=
        if b < 0x80 then Char.ofNat b.toNat :: lossyChars none rest
        else
          match utf8Lead b with
          | some lead => lossyChars (some lead) rest
          | none => replacementChar :: lossyChars none rest
      match pending with
      | none => anew
      | some p =>
          if p.low ≤ b ∧ b ≤ p.high then
            let value := p.value * 64 + (b.toNat - 0x80)
            if p.missing = 1 then Char.ofNat value :: lossyChars none rest
            else lossyChars (some ⟨p.missing - 1, 0x80, 0xBF, value⟩) rest
          else replacementChar :: anew

/-- `String::from_utf8_lossy`. -/
def fromUtf8Lossy (bytes : Bytes) : String := String.ofList (lossyChars none bytes)

example : fromUtf8Lossy [0x61, 0xE2, 0x82, 0xAC, 0xE2, 0x82, 0x62, 0xFF]
    = String.ofList ['a', Char.ofNat 0x20AC, replacementChar, 'b', replacementChar] := by
  decide

/-- `is_ascii_graphic() || is_ascii_whitespace()`. -/
def isAsciiPrintable (c : Char) : Bool :=
  ('!' ≤ c ∧ c ≤ '~') ∨ c ∈ [' ', '\t', '\n', Char.ofNat 0xC, '\r']

/-! ### Describing a blob -/

/-- `detect_mime`. The slice `data[8..12]` panics when the data is shorter. -/
def detectMime (data : Bytes) : Option String :=
  if (asciiBytes "\x7b" <+: data ∨ asciiBytes "[" <+: data ∨ asciiBytes "<" <+: data) ∧
      (fromUtf8Lossy data).toList.all isAsciiPrintable then some "application/json"
  else if [0x89, 0x50, 0x4E, 0x47, 0x0D, 0x0A, 0x1A, 0x0A] <+: data then some "image/png"
  else if [0xFF, 0xD8, 0xFF] <+: data then some "image/jpeg"
  else if [0x47, 0x49, 0x46, 0x38] <+: data then some "image/gif"
  else if 8 < data.length ∧ data.take 4 = asciiBytes "RIFF" then
    if data.length < 12 then none
    else if (data.drop 8).take 4 = asciiBytes "WEBP" then some "image/webp"
    else some "text/plain"
  else some "text/plain"

/-- `BlobInfo`. -/
structure BlobInfo where
  blobId : String
  size : ℕ
  source : String
  cached : Bool
  content : String
  mimeType : String
  dataBase64 : String
  paymentError : Option String
deriving DecidableEq

/-- The text formats that come from libraries. -/
structure TextFormats where
  /-- `BlobId::from_str` -/
  parseBlobId : String → Except String BlobId
  /-- base64 in its standard alphabet -/
  base64Encode : Bytes → String

/-- Formats that know the key of the blob with the single byte 1. -/
def sampleFormats : TextFormats where
  parseBlobId s := if s = sampleKey then .ok (sampleBlobId [1]) else .error "invalid length"
  base64Encode _ := ""

/-- `build_blobinfo`, nothing when the detection of the kind panics. -/
def buildBlobInfo (formats : TextFormats) (blobId : String) (data : Bytes) (source : String)
    (cached : Bool) (paymentError : Option String) : Option BlobInfo :=
  match detectMime data with
  | none => none
  | some mimeType =>
      let (content, dataBase64) :=
        if mimeType.startsWith "image/" then
          ("[Binary image — " ++ toString data.length ++ " bytes]", formats.base64Encode data)
        else if 2000 < data.length then (fromUtf8Lossy (data.take 2000) ++ "...", "")
        else (fromUtf8Lossy data, "")
      some ⟨blobId, data.length, source, cached, content, mimeType, dataBase64, paymentError⟩

/-- The names of the sources in a response. -/
def BlobResolution.source : BlobResolution → String
  | .localCache => "L0 local cache"
  | .l1Peer => "L1 peer"
  | .l3Walrus => "L3 Walrus"

/-! ### The request -/

/-- The parts of the state of the HTTP API that a resolve uses. -/
structure HttpApiState (PeerId : Type) where
  peerId : PeerId
  wallet : Option ZingWallet

namespace HttpApiState

variable (self : HttpApiState PeerId)

/-- The resolver of a request. -/
def resolver : Resolver PeerId := ⟨some self.peerId, true, self.wallet⟩

/-- `resolve_blob`. -/
def resolveBlob [DecidableEq PeerId] (lib : Externals PeerId) (formats : TextFormats)
    (blobId : String) : Action PeerId (Except String BlobInfo) :=
  match formats.parseBlobId blobId with
  | .error e => pure (.error ("invalid blob id: " ++ blobId ++ ": " ++ e))
  | .ok id => do
      let result ← self.resolver.resolve lib id
      match result with
      | .error e => pure (.error e.display)
      | .ok result =>
          match buildBlobInfo formats blobId result.data result.resolution.source result.cached
            result.paymentError with
          | none => .panic
          | some info => do
              let _ ← sendCmd (.announceBlob id.bytes)
              pure (.ok info)

end HttpApiState

end ZingCdn
