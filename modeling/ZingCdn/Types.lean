import ZingCdn.Library.LittleEndian
import ZingCdn.MoveRuntime

/-!
# Bytes, Errors and External Functions of the Node

The data the node's modules share: byte strings and 32-byte digests, the error type with
its messages, and the functions of the libraries the node links against (hashing, blob
encoding, text formats), which are taken as parameters in `Externals`.
-/

namespace ZingCdn

/-- A byte string (`Vec<u8>`). -/
abbrev Bytes : Type := List UInt8

/-- A 32-byte array (`[u8; 32]`). -/
abbrev Bytes32 : Type := List.Vector UInt8 32

/-- The content-derived id of a Walrus blob. -/
structure BlobId where
  bytes : Bytes32
deriving DecidableEq

/-- Where a blob was found. -/
inductive BlobResolution
  | localCache
  | l1Peer
  | l3Walrus
deriving DecidableEq, Repr

/-- The node's errors. -/
inductive ZingError
  | blobNotFound (s : String)
  | blobExpired
  | walrusClient (s : String)
  | suiClient (s : String)
  | p2pNetwork (s : String)
  | noPeersAvailable (s : String)
  | cache (s : String)
  | verificationFailed (computed expected : String)
  | diskFull
  | io (s : String)
deriving DecidableEq, Repr

/-- The message of an error. -/
def ZingError.display : ZingError → String
  | .blobNotFound s => "blob not found: " ++ s
  | .blobExpired => "blob expired (epoch ended)"
  | .walrusClient s => "Walrus client error: " ++ s
  | .suiClient s => "Sui client error: " ++ s
  | .p2pNetwork s => "P2P network error: " ++ s
  | .noPeersAvailable s => "no peers available for blob: " ++ s
  | .cache s => "cache error: " ++ s
  | .verificationFailed computed expected =>
      "verification failed: computed blob ID " ++ computed ++ " does not match expected "
        ++ expected
  | .diskFull => "disk full, cannot cache blob"
  | .io s => "IO error: " ++ s

/-- `ZingResult<T>`. -/
abbrev ZingResult : Type → Type := Except ZingError

/-- A parsed Move struct tag. -/
structure StructTag where
  text : String
deriving DecidableEq

/-- A multiaddress, by its text. -/
abbrev Multiaddr : Type := String

/-- The functions of third-party libraries that the node computes with. -/
structure Externals (PeerId : Type) where
  /-- `EncodingFactory::compute_blob_id` of the RS2 encoding -/
  computeBlobId : Bytes → Except String BlobId
  /-- `BlobId::to_string` -/
  blobIdToString : BlobId → String
  /-- `PeerId::to_string` -/
  peerIdToString : PeerId → String
  /-- `Address::to_string` -/
  addressToString : Address → String
  /-- `Address::from_str` -/
  parseAddress : String → Except String Address
  /-- `Address::from_bytes` -/
  addressFromBytes : Bytes32 → Except String Address
  /-- `StructTag::from_str` -/
  structTagFromStr : String → Option StructTag
  /-- `bs58::decode(..).into_vec` -/
  bs58Decode : String → Except String Bytes
  /-- SHA-256 -/
  sha256 : Bytes → Bytes32

/-- The all-zero digest. -/
def zeroBytes32 : Bytes32 := List.Vector.replicate 32 0

/-- The lowercase hexadecimal digit of a value below 16. -/
def hexDigit (n : ℕ) : Char := "0123456789abcdef".toList.getD n '0'

/-- `hex::encode`: two lowercase digits a byte. -/
def hexEncode (bytes : Bytes) : String :=
  String.ofList (bytes.flatMap fun b => [hexDigit (b.toNat / 16), hexDigit (b.toNat % 16)])

/-- The bytes of an ASCII text. -/
def asciiBytes (s : String) : Bytes := s.toList.map fun c => UInt8.ofNat c.toNat

/-- The loop takes the bytes from an index on. -/
private theorem toList_loop_eq (bs : ByteArray) (i : ℕ) (r : List UInt8) :
    ByteArray.toList.loop bs i r = r.reverse ++ bs.data.toList.drop i := by
  induction i, r using ByteArray.toList.loop.induct bs with
  | case1 i r hlt ih =>
      have hlen : i < bs.data.toList.length := by simpa using hlt
      have hget : bs.get! i = bs.data.toList[i] := by
        show bs.data[i]! = _
        rw [getElem!_pos bs.data i hlt]
        rfl
      rw [ByteArray.toList.loop, if_pos hlt, ih, List.drop_eq_getElem_cons hlen, hget,
        List.reverse_cons, List.append_assoc, List.singleton_append]
  | case2 i r hle =>
      rw [ByteArray.toList.loop, if_neg hle, List.drop_eq_nil_of_le, List.append_nil]
      simpa using hle

/-- Texts are told apart by their UTF-8 bytes. -/
theorem toUTF8_toList_injective : Function.Injective fun s : String => s.toUTF8.toList := by
  intro s t hst
  have hbytes : s.toByteArray.data.toList = t.toByteArray.data.toList := by
    simpa [ByteArray.toList, toList_loop_eq] using hst
  exact String.toByteArray_inj.mp (ByteArray.ext (Array.toList_inj.mp hbytes))

/-- Different values have different digits. -/
theorem hexDigit_injOn {a b : ℕ} (ha : a < 16) (hb : b < 16) (hab : hexDigit a = hexDigit b) :
    a = b := by
  have hall : ∀ a : Fin 16, ∀ b : Fin 16, hexDigit a.val = hexDigit b.val → a = b := by
    decide
  exact congrArg Fin.val (hall ⟨a, ha⟩ ⟨b, hb⟩ hab)

/-- Hexadecimal loses nothing. -/
theorem hexEncode_injective : Function.Injective hexEncode := by
  intro xs ys hxy
  replace hxy := String.ofList_injective hxy
  induction xs generalizing ys with
  | nil =>
      cases ys with
      | nil => rfl
      | cons y ys => cases hxy
  | cons x xs ih =>
      cases ys with
      | nil => cases hxy
      | cons y ys =>
          obtain ⟨hhigh, hrest⟩ := List.cons.inj hxy
          obtain ⟨hlow, hrest⟩ := List.cons.inj hrest
          have hx := x.toNat_lt
          have hy := y.toNat_lt
          have hdiv := hexDigit_injOn (by omega) (by omega) hhigh
          have hmod := hexDigit_injOn (by omega) (by omega) hlow
          have hnat : x.toNat = y.toNat := by omega
          rw [UInt8.toNat_inj.mp hnat, ih hrest]

/-- `u64::to_le_bytes`. -/
def leBytes64 (n : ℕ) : Bytes :=
  (List.range 8).map fun i => UInt8.ofNat (n / 256 ^ i)

/-- The bytes of a number are its digits to the base 256, the lowest first. -/
theorem leBytes64_eq (n : ℕ) : leBytes64 n = LittleEndian.split 8 n :=
  (LittleEndian.split_eq_map 8 n).symm

/-- `a + b` on `u64` and `usize`: an overflow panics when overflow checks are compiled in, and
wraps when not. -/
def addU64 (overflowChecks : Bool) (a b : ℕ) : Option ℕ :=
  if a + b < 18446744073709551616 then some (a + b)
  else if overflowChecks then none
  else some (a + b - 18446744073709551616)

/-- A sum below `2^64` is exact in both builds. -/
theorem addU64_of_lt {overflowChecks : Bool} {a b : ℕ} (h : a + b < 18446744073709551616) :
    addU64 overflowChecks a b = some (a + b) := if_pos h

/-- `str::parse::<u64>`: an optional plus sign and one or more digits, in range. -/
def parseU64 (s : String) : Option ℕ :=
  let digits := match s.toList with
    | '+' :: rest => rest
    | cs => cs
  if digits.isEmpty ∨ ¬ digits.all Char.isDigit then none
  else
    let n := digits.foldl (fun acc c => 10 * acc + (c.toNat - '0'.toNat)) 0
    if n ≤ u64Max then some n else none

/-! ### Concrete functions -/

/-- A blob id that depends on the length and the first byte of the data. -/
def sampleBlobId (data : Bytes) : BlobId :=
  ⟨List.Vector.replicate 32 (UInt8.ofNat data.length + data.headD 0)⟩

/-- Concrete library functions, for peers that are numbers. -/
def sampleExternals : Externals ℕ where
  computeBlobId data := .ok (sampleBlobId data)
  blobIdToString id := String.ofList (id.bytes.toList.map Char.ofUInt8)
  peerIdToString n := String.ofList (List.replicate n 'p')
  addressToString a := addressText a.bytes.toList
  parseAddress s := if s = addressText (List.replicate 32 1) then
      .ok ⟨List.Vector.replicate 32 1⟩ else .error "invalid address"
  addressFromBytes bytes := .ok ⟨bytes⟩
  structTagFromStr s := some ⟨s⟩
  bs58Decode s := .ok (List.replicate 32 (UInt8.ofNat s.length))
  sha256 data := List.Vector.replicate 32 (UInt8.ofNat data.length)
where
  addressText (bytes : Bytes) : String := "0x" ++ hexEncode bytes

/-- The key of the blob with the single byte 1. -/
def sampleKey : String := sampleExternals.blobIdToString (sampleBlobId [1])

/-- Different blob ids have different texts. -/
theorem sampleExternals_blobIdToString_injective :
    Function.Injective sampleExternals.blobIdToString := by
  intro a b hab
  have hchars : a.bytes.toList.map Char.ofUInt8 = b.bytes.toList.map Char.ofUInt8 :=
    String.ofList_injective hab
  have hinj : Function.Injective Char.ofUInt8 := by
    intro x y hxy
    have hval : x.toUInt32 = y.toUInt32 := congrArg Char.val hxy
    exact UInt8.toUInt32_inj.mp hval
  have hbytes := hinj.list_map hchars
  cases a
  cases b
  exact congrArg BlobId.mk (List.Vector.eq _ _ hbytes)

/-- So have different peers. -/
theorem sampleExternals_peerIdToString_injective :
    Function.Injective sampleExternals.peerIdToString := by
  intro a b hab
  have := congrArg List.length (String.ofList_injective hab)
  simpa using this

/-- And so have different addresses. -/
theorem sampleExternals_addressToString_injective :
    Function.Injective sampleExternals.addressToString := by
  rintro ⟨a⟩ ⟨b⟩ hab
  have hchars := congrArg String.toList hab
  have hhex : (hexEncode a.toList).toList = (hexEncode b.toList).toList := by
    simpa [sampleExternals, sampleExternals.addressText] using hchars
  have hbytes := hexEncode_injective (String.toList_injective hhex)
  exact congrArg Address.mk (List.Vector.eq _ _ hbytes)

end ZingCdn
