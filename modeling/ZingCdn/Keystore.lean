import Mathlib.Data.List.DropRight
import ZingCdn.Wallet

/-!
# The Identity of a Node

A node has one seed, and both the address of its wallet and its peer id are derived from it. The
seed is in a key that a start finds: in an environment variable with one key, in one with several,
or in the keystore of the Sui command line. Only in the keystore is it the key of an address,
the active one in `client.yaml`.

The keys are looked through in order. A key that is no Base64 ends the search with an error; a key
of another scheme is passed over, and so is one of another address when an address is looked for.

## Main results

* `decodeKeys_eq_ok_iff`: which key is found.
* `lineAddress_written`: the line with the active address, as it may be written.
* `node_identity`: when a start has a wallet, and of which key it is.
-/

namespace ZingCdn

variable {PeerId : Type}

/-! ### The active address -/

/-- `char::is_whitespace`. -/
def isWhitespace (c : Char) : Bool :=
  let n := c.toNat
  (9 ≤ n && n ≤ 13) || (8192 ≤ n && n ≤ 8202) ||
    n ∈ [32, 133, 160, 5760, 8232, 8233, 8239, 8287, 12288]

/-- Drop characters at both ends: `trim`, or `trim_matches`. -/
def trimBoth (p : Char → Bool) (cs : List Char) : List Char := (cs.dropWhile p).rdropWhile p

/-- The double quote. -/
def quoteMark : Char := Char.ofNat 34

/-- `trim_end_matches` with a blank and a tilde, of a text written backwards. -/
def trimNulls : List Char → List Char
  | '~' :: ' ' :: rest => trimNulls rest
  | cs => cs

def activeAddressMark : List Char := "active_address:".toList

/-- The address in a line, as text, when the line has one. -/
def lineAddress (line : List Char) : Option (List Char) :=
  let t := trimBoth isWhitespace line
  if activeAddressMark.isPrefixOf t then
    let a := trimBoth (· = quoteMark) (trimBoth isWhitespace (t.drop activeAddressMark.length))
    let a := (trimNulls a.reverse).reverse
    if a ≠ [] ∧ a ≠ ['~'] then some a else none
  else none

/-- The loop over the lines: it ends at the first that has an address, parsed or not. -/
def activeAddressOf (lib : Externals PeerId) : List (List Char) → Option Address
  | [] => none
  | line :: rest =>
      match lineAddress line with
      | some a => (lib.parseAddress (String.ofList a)).toOption
      | none => activeAddressOf lib rest

/-- `parse_active_address`, from the content of the file when it can be read. A carriage return
at the end of a line is trimmed with the line. -/
def parseActiveAddress (lib : Externals PeerId) (clientYaml : Option String) : Option Address :=
  clientYaml.bind fun content => activeAddressOf lib (content.toList.splitOn '\n')

/-! ### Keys -/

/-- The functions of libraries for keys. -/
structure KeyLib where
  /-- Base64 in its standard alphabet -/
  base64Decode : String → Except String Bytes
  /-- `serde_json::from_str` to a list of texts -/
  parseKeys : String → Except String (List String)
  /-- the address of the public key of a seed -/
  deriveAddress : Bytes32 → Address

/-- The seed in a key: it stands behind the flag of Ed25519. Of 33 bytes there are always 32
left, so that the error "invalid key length" does not occur. -/
def seedOf (raw : Bytes) : Option Bytes32 :=
  if h : raw.length = 33 ∧ raw.head? = some 0 then some ⟨raw.tail, by simp [h.1]⟩ else none

section Search

variable (keyLib : KeyLib)

/-- The search through the keys: the address and the seed of the first key that is wanted. -/
def decodeKeys (wanted : Address → Bool) (notFound : String) :
    List String → ZingResult (Address × Bytes32)
  | [] => .error (.suiClient notFound)
  | k :: keys =>
      match keyLib.base64Decode k with
      | .error e => .error (.suiClient ("key decode: " ++ e))
      | .ok raw =>
          match seedOf raw with
          | none => decodeKeys wanted notFound keys
          | some seed =>
              if wanted (keyLib.deriveAddress seed) then .ok (keyLib.deriveAddress seed, seed)
              else decodeKeys wanted notFound keys

/-- `decode_and_derive`. -/
def decodeAndDerive : List String → ZingResult (Address × Bytes32) :=
  decodeKeys keyLib (fun _ => true) "no Ed25519 key found"

/-- `decode_first_matching`. -/
def decodeFirstMatching (keys : List String) (target : Address) :
    ZingResult (Address × Bytes32) :=
  decodeKeys keyLib (· = target) "no Ed25519 key matching active_address" keys

end Search

/-- What a start finds: the environment variables that are set, and the two files. -/
structure KeystoreEnv where
  /-- `ZING_CDN_SUI_PRIVATE_KEY` -/
  privateKey : Option String
  /-- `ZING_CDN_SUI_KEYSTORE_JSON` -/
  keystoreJson : Option String
  keystoreFile : Except String String
  clientYaml : Option String

/-- The key of `from_keystore`. -/
def KeystoreEnv.walletKey (env : KeystoreEnv) (lib : Externals PeerId) (keyLib : KeyLib) :
    ZingResult (Address × Bytes32) :=
  match env.privateKey with
  | some key => decodeAndDerive keyLib [key]
  | none =>
      match env.keystoreJson with
      | some json =>
          match keyLib.parseKeys json with
          | .error e => .error (.suiClient ("env ZING_CDN_SUI_KEYSTORE_JSON: " ++ e))
          | .ok keys => decodeAndDerive keyLib keys
      | none =>
          match env.keystoreFile with
          | .error e => .error (.suiClient ("keystore read: " ++ e))
          | .ok text =>
              match keyLib.parseKeys text with
              | .error e => .error (.suiClient ("keystore parse: " ++ e))
              | .ok keys =>
                  match parseActiveAddress lib env.clientYaml with
                  | none => .error (.suiClient "no active_address in client.yaml")
                  | some target => decodeFirstMatching keyLib keys target

/-- `from_keystore`: the wallet, and the seed, of which `to_libp2p_keypair` makes the peer id. -/
def ZingWallet.fromKeystore (env : KeystoreEnv) (lib : Externals PeerId) (keyLib : KeyLib)
    (settlement : Option SettlementConfig) : ZingResult (ZingWallet × Bytes32) :=
  (env.walletKey lib keyLib).map fun key => (⟨key.1, settlement⟩, key.2)

/-! ### Which address is active -/

section ActiveAddress

variable {lib : Externals PeerId} {p : Char → Bool} {cs : List Char}

/-- Trimming takes off what is dropped at both ends, up to characters that are kept. -/
theorem trimBoth_append {pre post : List Char} {c d : Char} (hpre : ∀ x ∈ pre, p x)
    (hpost : ∀ x ∈ post, p x) (hhead : cs.head? = some c) (hc : ¬ p c)
    (hlast : cs.getLast? = some d) (hd : ¬ p d) : trimBoth p (pre ++ cs ++ post) = cs := by
  have hfront : (pre ++ cs ++ post).dropWhile p = cs ++ post := by
    obtain ⟨rest, rfl⟩ := List.head?_eq_some_iff.mp hhead
    rw [List.append_assoc, List.dropWhile_append_of_pos hpre, List.cons_append,
      List.dropWhile_cons_of_neg hc]
  obtain ⟨rest, rfl⟩ := List.getLast?_eq_some_iff.mp hlast
  rw [trimBoth, hfront, List.rdropWhile, List.reverse_append,
    List.dropWhile_append_of_pos (by simpa using hpost), List.reverse_append,
    List.reverse_singleton, List.singleton_append, List.dropWhile_cons_of_neg hd]
  simp

/-- What is trimmed off has the character, what is left has it nowhere. -/
theorem trimBoth_append_of_forall {pre post : List Char} (hpre : ∀ x ∈ pre, p x)
    (hpost : ∀ x ∈ post, p x) (hne : cs ≠ []) (hcs : ∀ x ∈ cs, ¬ p x) :
    trimBoth p (pre ++ cs ++ post) = cs :=
  trimBoth_append hpre hpost (List.head?_eq_some_head hne) (hcs _ (List.head_mem hne))
    (List.getLast?_eq_some_getLast hne) (hcs _ (List.getLast_mem hne))

/-- There is nothing to trim without a tilde. -/
theorem trimNulls_of_forall (h : ∀ c ∈ cs, c ≠ '~') : trimNulls cs = cs := by
  rw [trimNulls.eq_def]
  split
  · exact absurd rfl (h '~' List.mem_cons_self)
  · rfl

/-- A character that stays where it is. -/
def Bare (c : Char) : Prop := ¬ isWhitespace c ∧ c ≠ quoteMark ∧ c ≠ '~'

instance (c : Char) : Decidable (Bare c) := inferInstanceAs (Decidable (_ ∧ _))

/-- **The line with the active address**, whatever the blanks in it and with quotes or without. -/
theorem lineAddress_written {indent gap opening text closing ending : List Char}
    (hindent : ∀ c ∈ indent, isWhitespace c) (hgap : ∀ c ∈ gap, isWhitespace c)
    (hopening : ∀ c ∈ opening, c = quoteMark) (hclosing : ∀ c ∈ closing, c = quoteMark)
    (hending : ∀ c ∈ ending, isWhitespace c) (hne : text ≠ []) (htext : ∀ c ∈ text, Bare c) :
    lineAddress (indent ++ (activeAddressMark ++ (gap ++ (opening ++ text ++ closing))) ++ ending)
      = some text := by
  have hquoted : ∀ c ∈ opening ++ text ++ closing, ¬ isWhitespace c := by
    intro c hc
    rcases List.mem_append.mp hc with hc | hc
    · rcases List.mem_append.mp hc with hc | hc
      · rw [hopening c hc]
        decide
      · exact (htext c hc).1
    · rw [hclosing c hc]
      decide
  have hquotedNe : opening ++ text ++ closing ≠ [] := by simp [hne]
  have hline : trimBoth isWhitespace (indent ++ (activeAddressMark ++ (gap ++
      (opening ++ text ++ closing))) ++ ending)
        = activeAddressMark ++ (gap ++ (opening ++ text ++ closing)) := by
    refine trimBoth_append (c := 'a') hindent hending rfl (by decide) ?_
      (hquoted _ (List.getLast_mem hquotedNe))
    rw [List.getLast?_append, List.getLast?_append, List.getLast?_eq_some_getLast hquotedNe]
    rfl
  have hvalue : trimBoth isWhitespace (gap ++ (opening ++ text ++ closing))
      = opening ++ text ++ closing := by
    have h := trimBoth_append_of_forall hgap (List.forall_mem_nil _) hquotedNe hquoted
    rwa [List.append_nil] at h
  have hbare : trimBoth (· = quoteMark) (opening ++ text ++ closing) = text :=
    trimBoth_append_of_forall (by simpa using hopening) (by simpa using hclosing) hne
      fun c hc => by simpa using (htext c hc).2.1
  have hnulls : (trimNulls text.reverse).reverse = text := by
    rw [trimNulls_of_forall fun c hc => (htext c (List.mem_reverse.mp hc)).2.2,
      List.reverse_reverse]
  have htilde : text ≠ ['~'] := by
    rintro rfl
    exact (htext '~' List.mem_cons_self).2.2 rfl
  rw [lineAddress, hline]
  dsimp only
  rw [if_pos (List.isPrefixOf_iff_prefix.mpr (List.prefix_append _ _)), List.drop_left, hvalue,
    hbare, hnulls, if_pos ⟨hne, htilde⟩]

/-- The address that a `client.yaml` names: that of its first line with one. -/
def NamesActive (lib : Externals PeerId) (content : String) (target : Address) : Prop :=
  ∃ before line after text, content.toList.splitOn '\n' = before ++ line :: after ∧
    lineAddress line = some text ∧ (∀ l ∈ before, lineAddress l = none) ∧
      lib.parseAddress (String.ofList text) = .ok target

/-- A file is its lines. -/
theorem namesActive_of_lines {before after : List (List Char)} {line text : List Char}
    {target : Address} (hlines : ∀ l ∈ before ++ line :: after, '\n' ∉ l)
    (hline : lineAddress line = some text) (hbefore : ∀ l ∈ before, lineAddress l = none)
    (hparse : lib.parseAddress (String.ofList text) = .ok target) :
    NamesActive lib (String.ofList (['\n'].intercalate (before ++ line :: after))) target := by
  refine ⟨before, line, after, text, ?_, hline, hbefore, hparse⟩
  rw [String.toList_ofList]
  exact List.splitOn_intercalate '\n' hlines (by simp)

/-- The address of a file is the one in its first line with one, if that can be parsed. -/
theorem activeAddressOf_eq (lib : Externals PeerId) (lines : List (List Char)) :
    activeAddressOf lib lines = (lines.findSome? lineAddress).bind fun a =>
      (lib.parseAddress (String.ofList a)).toOption := by
  induction lines with
  | nil => rfl
  | cons line rest ih =>
      rw [activeAddressOf, List.findSome?_cons]
      cases lineAddress line with
      | none => exact ih
      | some a => rfl

/-- What is left of a result without its error. -/
theorem toOption_eq_some_iff {ε α : Type} {r : Except ε α} {a : α} :
    r.toOption = some a ↔ r = .ok a := by
  cases r with
  | error e => constructor <;> rintro ⟨⟩
  | ok b =>
      constructor
      · rintro h
        rw [Option.some.inj h]
      · rintro h
        rw [Except.ok.inj h]
        rfl

/-- An address is found exactly in a file that is there and names it. -/
theorem parseActiveAddress_eq_some_iff {yaml : Option String} {target : Address} :
    parseActiveAddress lib yaml = some target ↔
      ∃ content, yaml = some content ∧ NamesActive lib content target := by
  constructor
  · intro h
    obtain ⟨content, rfl, hactive⟩ := Option.bind_eq_some_iff.mp h
    rw [activeAddressOf_eq] at hactive
    obtain ⟨text, htext, hparse⟩ := Option.bind_eq_some_iff.mp hactive
    obtain ⟨before, line, after, hlines, hline, hbefore⟩ := List.findSome?_eq_some_iff.mp htext
    exact ⟨content, rfl, before, line, after, text, hlines, hline, hbefore,
      toOption_eq_some_iff.mp hparse⟩
  · rintro ⟨content, rfl, before, line, after, text, hlines, hline, hbefore, hparse⟩
    rw [parseActiveAddress, Option.bind_some, activeAddressOf_eq,
      List.findSome?_eq_some_iff.mpr ⟨before, line, after, hlines, hline, hbefore⟩,
      Option.bind_some]
    exact toOption_eq_some_iff.mpr hparse

end ActiveAddress

/-! ### Which key is found -/

section Keys

variable {keyLib : KeyLib} {wanted : Address → Bool} {notFound : String} {keys : List String}

/-- The key has a seed. -/
def KeyLib.HasSeed (keyLib : KeyLib) (k : String) (seed : Bytes32) : Prop :=
  ∃ raw, keyLib.base64Decode k = .ok raw ∧ seedOf raw = some seed

/-- The key can be decoded, and it is of another scheme or of no wanted address. -/
def KeyLib.Passes (keyLib : KeyLib) (wanted : Address → Prop) (k : String) : Prop :=
  ∃ raw, keyLib.base64Decode k = .ok raw ∧
    ∀ seed, seedOf raw = some seed → ¬ wanted (keyLib.deriveAddress seed)

/-- The first key that does not pass has the seed, and its address is wanted. -/
def KeyLib.Finds (keyLib : KeyLib) (wanted : Address → Prop) (keys : List String)
    (seed : Bytes32) : Prop :=
  ∃ before k after, keys = before ++ k :: after ∧ (∀ k' ∈ before, keyLib.Passes wanted k') ∧
    keyLib.HasSeed k seed ∧ wanted (keyLib.deriveAddress seed)

/-- A key that is passed over makes no difference. -/
theorem decodeKeys_cons_of_passes {k : String} (h : keyLib.Passes (wanted · = true) k) :
    decodeKeys keyLib wanted notFound (k :: keys) = decodeKeys keyLib wanted notFound keys := by
  obtain ⟨raw, hraw, hother⟩ := h
  rw [decodeKeys, hraw]
  dsimp only
  cases hseed : seedOf raw with
  | none => rfl
  | some seed => exact if_neg (hother seed hseed)

/-- A key with a seed of a wanted address ends the search. -/
theorem decodeKeys_cons_of_hasSeed {k : String} {seed : Bytes32} (h : keyLib.HasSeed k seed)
    (hwanted : wanted (keyLib.deriveAddress seed)) :
    decodeKeys keyLib wanted notFound (k :: keys) = .ok (keyLib.deriveAddress seed, seed) := by
  obtain ⟨raw, hraw, hseed⟩ := h
  rw [decodeKeys, hraw]
  dsimp only
  rw [hseed]
  exact if_pos hwanted

/-- A key passes, is found or cannot be decoded. -/
theorem passes_or_hasSeed (keyLib : KeyLib) (wanted : Address → Bool) (k : String) :
    keyLib.Passes (wanted · = true) k ∨
      (∃ seed, keyLib.HasSeed k seed ∧ wanted (keyLib.deriveAddress seed)) ∨
      ∃ e, keyLib.base64Decode k = .error e := by
  cases hraw : keyLib.base64Decode k with
  | error e => exact .inr (.inr ⟨e, rfl⟩)
  | ok raw =>
      by_cases h : ∃ seed, seedOf raw = some seed ∧ wanted (keyLib.deriveAddress seed)
      · obtain ⟨seed, hseed, hwanted⟩ := h
        exact .inr (.inl ⟨seed, ⟨raw, hraw, hseed⟩, hwanted⟩)
      · exact .inl ⟨raw, hraw, fun seed hseed hwanted => h ⟨seed, hseed, hwanted⟩⟩

/-- **Which key is found**: the first of a wanted address, when all before it can be decoded. -/
theorem decodeKeys_eq_ok_iff {key : Address × Bytes32} :
    decodeKeys keyLib wanted notFound keys = .ok key ↔
      key.1 = keyLib.deriveAddress key.2 ∧ keyLib.Finds (wanted · = true) keys key.2 := by
  constructor
  · intro h
    induction keys with
    | nil => cases h
    | cons k keys ih =>
        rcases passes_or_hasSeed keyLib wanted k with hpass | ⟨seed, hseed, hwanted⟩ | ⟨e, he⟩
        · rw [decodeKeys_cons_of_passes hpass] at h
          obtain ⟨hkey, before, k', after, rfl, hbefore, hfound⟩ := ih h
          exact ⟨hkey, k :: before, k', after, rfl,
            List.forall_mem_cons.mpr ⟨hpass, hbefore⟩, hfound⟩
        · rw [decodeKeys_cons_of_hasSeed hseed hwanted] at h
          obtain rfl := Except.ok.inj h
          exact ⟨rfl, [], k, keys, rfl, List.forall_mem_nil _, hseed, hwanted⟩
        · rw [decodeKeys, he] at h
          cases h
  · obtain ⟨address, seed⟩ := key
    rintro ⟨haddress, before, k, after, rfl, hbefore, hseed, hwanted⟩
    obtain rfl : address = keyLib.deriveAddress seed := haddress
    induction before with
    | nil => exact decodeKeys_cons_of_hasSeed hseed hwanted
    | cons k' before ih =>
        obtain ⟨hpass, hrest⟩ := List.forall_mem_cons.mp hbefore
        rw [List.cons_append, decodeKeys_cons_of_passes hpass, ih hrest]

/-- The key can be decoded. -/
def KeyLib.Decodes (keyLib : KeyLib) (k : String) : Prop := ∃ raw, keyLib.base64Decode k = .ok raw

/-- Without a wanted key the search says so, when every key can be decoded. -/
theorem decodeKeys_of_forall_passes (h : ∀ k ∈ keys, keyLib.Passes (wanted · = true) k) :
    decodeKeys keyLib wanted notFound keys = .error (.suiClient notFound) := by
  induction keys with
  | nil => rfl
  | cons k keys ih =>
      obtain ⟨hpass, hrest⟩ := List.forall_mem_cons.mp h
      rw [decodeKeys_cons_of_passes hpass, ih hrest]

/-- When every key can be read and none is found, all are passed over. -/
theorem passes_of_not_finds (hdecodes : ∀ k ∈ keys, keyLib.Decodes k)
    (h : ∀ seed, ¬ keyLib.Finds (wanted · = true) keys seed) :
    ∀ k ∈ keys, keyLib.Passes (wanted · = true) k := by
  induction keys with
  | nil => exact List.forall_mem_nil _
  | cons k keys ih =>
      obtain ⟨⟨raw, hraw⟩, hrest⟩ := List.forall_mem_cons.mp hdecodes
      have hpass : keyLib.Passes (wanted · = true) k := by
        rcases passes_or_hasSeed keyLib wanted k with hpass | ⟨seed, hseed, hwanted⟩ | ⟨e, he⟩
        · exact hpass
        · exact absurd ⟨[], k, keys, rfl, List.forall_mem_nil _, hseed, hwanted⟩ (h seed)
        · cases he.symm.trans hraw
      refine List.forall_mem_cons.mpr ⟨hpass, ih hrest fun seed hfound => h seed ?_⟩
      obtain ⟨before, k', after, rfl, hbefore, hk'⟩ := hfound
      exact ⟨k :: before, k', after, rfl, List.forall_mem_cons.mpr ⟨hpass, hbefore⟩, hk'⟩

/-- **The order of the keys makes no difference** when all can be decoded and at most one seed has
a wanted address. -/
theorem decodeKeys_perm {keys' : List String} (hperm : keys'.Perm keys)
    (hdecodes : ∀ k ∈ keys, keyLib.Decodes k)
    (hone : ∀ k ∈ keys, ∀ k' ∈ keys, ∀ s s', keyLib.HasSeed k s → keyLib.HasSeed k' s' →
      wanted (keyLib.deriveAddress s) → wanted (keyLib.deriveAddress s') → s = s') :
    decodeKeys keyLib wanted notFound keys' = decodeKeys keyLib wanted notFound keys := by
  by_cases hfound : ∃ seed, keyLib.Finds (wanted · = true) keys seed
  · obtain ⟨seed, hfinds⟩ := hfound
    have hkeys : decodeKeys keyLib wanted notFound keys
        = .ok (keyLib.deriveAddress seed, seed) := decodeKeys_eq_ok_iff.mpr ⟨rfl, hfinds⟩
    obtain ⟨before, k, after, rfl, -, hseed, hwanted⟩ := hfinds
    have hmem : k ∈ before ++ k :: after := List.mem_append_right _ List.mem_cons_self
    have hfound' : ∃ seed', keyLib.Finds (wanted · = true) keys' seed' := by
      by_contra hnone
      have hdecodes' : ∀ k' ∈ keys', keyLib.Decodes k' := fun k' hk' =>
        hdecodes k' (hperm.subset hk')
      obtain ⟨raw, hraw, hother⟩ :=
        passes_of_not_finds hdecodes' (not_exists.mp hnone) k (hperm.symm.subset hmem)
      obtain ⟨raw', hraw', hseed'⟩ := hseed
      obtain rfl := Except.ok.inj (hraw.symm.trans hraw')
      exact hother seed hseed' hwanted
    obtain ⟨seed', hfinds'⟩ := hfound'
    have hkeys' : decodeKeys keyLib wanted notFound keys'
        = .ok (keyLib.deriveAddress seed', seed') := decodeKeys_eq_ok_iff.mpr ⟨rfl, hfinds'⟩
    obtain ⟨before', k', after', rfl, -, hseed', hwanted'⟩ := hfinds'
    have hmem' := hperm.subset (List.mem_append_right before' (List.mem_cons_self (a := k')))
    rw [hkeys, hkeys', hone k hmem k' hmem' seed seed' hseed hseed' hwanted hwanted']
  · have hpass := passes_of_not_finds hdecodes (not_exists.mp hfound)
    rw [decodeKeys_of_forall_passes hpass,
      decodeKeys_of_forall_passes fun k hk => hpass k (hperm.subset hk)]

end Keys

/-! ### The identity of the node -/

section Identity

variable {env : KeystoreEnv} {lib : Externals PeerId} {keyLib : KeyLib}

/-- The keys that a start looks through, and the address it looks for, if for one. -/
inductive KeystoreEnv.Offers (env : KeystoreEnv) (lib : Externals PeerId) (keyLib : KeyLib) :
    List String → Option Address → Prop
  | single {key : String} (hkey : env.privateKey = some key) :
      env.Offers lib keyLib [key] none
  | several {json : String} {keys : List String} (hkey : env.privateKey = none)
      (hjson : env.keystoreJson = some json) (hkeys : keyLib.parseKeys json = .ok keys) :
      env.Offers lib keyLib keys none
  | file {text content : String} {keys : List String} {target : Address}
      (hkey : env.privateKey = none) (hjson : env.keystoreJson = none)
      (hfile : env.keystoreFile = .ok text) (hkeys : keyLib.parseKeys text = .ok keys)
      (hyaml : env.clientYaml = some content) (hactive : NamesActive lib content target) :
      env.Offers lib keyLib keys (some target)

/-- The address is the one looked for. -/
def Wanted : Option Address → Address → Prop
  | none, _ => True
  | some target, address => address = target

/-- Without an address to look for, the first key with a seed is taken. -/
theorem decodeAndDerive_eq_ok_iff {keys : List String} {key : Address × Bytes32} :
    decodeAndDerive keyLib keys = .ok key ↔
      key.1 = keyLib.deriveAddress key.2 ∧ keyLib.Finds (Wanted none) keys key.2 := by
  rw [decodeAndDerive, decodeKeys_eq_ok_iff]
  simp only [eq_self]
  exact Iff.rfl

/-- With one, the first key of that address. -/
theorem decodeFirstMatching_eq_ok_iff {keys : List String} {target : Address}
    {key : Address × Bytes32} : decodeFirstMatching keyLib keys target = .ok key ↔
      key.1 = keyLib.deriveAddress key.2 ∧ keyLib.Finds (Wanted (some target)) keys key.2 := by
  rw [decodeFirstMatching, decodeKeys_eq_ok_iff]
  simp only [decide_eq_true_eq]
  exact Iff.rfl

/-- **The key of a wallet** is the one that is found among the keys that count. -/
theorem walletKey_eq_ok_iff {key : Address × Bytes32} : env.walletKey lib keyLib = .ok key ↔
    key.1 = keyLib.deriveAddress key.2 ∧ ∃ keys target,
      env.Offers lib keyLib keys target ∧ keyLib.Finds (Wanted target) keys key.2 := by
  constructor
  · intro h
    rw [KeystoreEnv.walletKey] at h
    split at h
    case h_1 k hkey =>
      obtain ⟨hderived, hfinds⟩ := decodeAndDerive_eq_ok_iff.mp h
      exact ⟨hderived, _, _, .single hkey, hfinds⟩
    case h_2 hkey =>
      split at h
      case h_1 json hjson =>
        split at h
        case h_1 e he => cases h
        case h_2 keys hkeys =>
          obtain ⟨hderived, hfinds⟩ := decodeAndDerive_eq_ok_iff.mp h
          exact ⟨hderived, _, _, .several hkey hjson hkeys, hfinds⟩
      case h_2 hjson =>
        split at h
        case h_1 e he => cases h
        case h_2 text hfile =>
          split at h
          case h_1 e he => cases h
          case h_2 keys hkeys =>
            split at h
            case h_1 hactive => cases h
            case h_2 target hactive =>
              obtain ⟨content, hyaml, hnames⟩ := parseActiveAddress_eq_some_iff.mp hactive
              obtain ⟨hderived, hfinds⟩ := decodeFirstMatching_eq_ok_iff.mp h
              exact ⟨hderived, _, _, .file hkey hjson hfile hkeys hyaml hnames, hfinds⟩
  · rintro ⟨hderived, keys, target, hoffers, hfinds⟩
    rw [KeystoreEnv.walletKey]
    cases hoffers with
    | single hkey =>
        rw [hkey]
        exact decodeAndDerive_eq_ok_iff.mpr ⟨hderived, hfinds⟩
    | several hkey hjson hkeys =>
        simp only [hkey, hjson, hkeys]
        exact decodeAndDerive_eq_ok_iff.mpr ⟨hderived, hfinds⟩
    | file hkey hjson hfile hkeys hyaml hactive =>
        have htarget := parseActiveAddress_eq_some_iff.mpr ⟨_, hyaml, hactive⟩
        simp only [hkey, hjson, hfile, hkeys, htarget]
        exact decodeFirstMatching_eq_ok_iff.mpr ⟨hderived, hfinds⟩

/-- A wallet is made of its key. -/
theorem fromKeystore_eq_ok_iff {settlement : Option SettlementConfig} {wallet : ZingWallet}
    {seed : Bytes32} :
    ZingWallet.fromKeystore env lib keyLib settlement = .ok (wallet, seed) ↔
      ∃ address, env.walletKey lib keyLib = .ok (address, seed) ∧
        wallet = ⟨address, settlement⟩ := by
  rw [ZingWallet.fromKeystore]
  cases env.walletKey lib keyLib with
  | error e =>
      constructor
      · rintro ⟨⟩
      · rintro ⟨_, ⟨⟩, _⟩
  | ok key =>
      obtain ⟨address, seed'⟩ := key
      constructor
      · intro h
        obtain ⟨rfl, rfl⟩ := Prod.mk.inj (Except.ok.inj h)
        exact ⟨address, rfl, rfl⟩
      · rintro ⟨_, h, rfl⟩
        obtain ⟨rfl, rfl⟩ := Prod.mk.inj (Except.ok.inj h)
        rfl

/-- **The identity of a node.** A start has a wallet exactly when the first key it can use is there
with only readable keys before it; the wallet has the address of that key, which is the active one
where the keys are of the keystore, and the peer id is of the same seed. The order of a keystore
makes no difference when all its keys can be read and at most one is of the active address. -/
theorem node_identity (env : KeystoreEnv) (lib : Externals PeerId) (keyLib : KeyLib)
    (settlement : Option SettlementConfig) :
    (∀ wallet seed, ZingWallet.fromKeystore env lib keyLib settlement = .ok (wallet, seed) ↔
      wallet = ⟨keyLib.deriveAddress seed, settlement⟩ ∧ ∃ keys target,
        env.Offers lib keyLib keys target ∧ keyLib.Finds (Wanted target) keys seed) ∧
    ∀ keys target text' keys', env.Offers lib keyLib keys (some target) →
      keyLib.parseKeys text' = .ok keys' → keys'.Perm keys → (∀ k ∈ keys, keyLib.Decodes k) →
      (∀ k ∈ keys, ∀ k' ∈ keys, ∀ s s', keyLib.HasSeed k s → keyLib.HasSeed k' s' →
        keyLib.deriveAddress s = target → keyLib.deriveAddress s' = target → s = s') →
      ZingWallet.fromKeystore { env with keystoreFile := .ok text' } lib keyLib settlement
        = ZingWallet.fromKeystore env lib keyLib settlement := by
  constructor
  · intro wallet seed
    simp only [fromKeystore_eq_ok_iff, walletKey_eq_ok_iff]
    constructor
    · rintro ⟨_, ⟨rfl, hfinds⟩, rfl⟩
      exact ⟨rfl, hfinds⟩
    · rintro ⟨rfl, hfinds⟩
      exact ⟨_, ⟨rfl, hfinds⟩, rfl⟩
  · rintro keys target text' keys' hoffers hkeys' hperm hdecodes hone
    have hsame : KeystoreEnv.walletKey { env with keystoreFile := .ok text' } lib keyLib
        = env.walletKey lib keyLib := by
      cases hoffers with
      | file hkey hjson hfile hkeys hyaml hactive =>
          have htarget := parseActiveAddress_eq_some_iff.mpr ⟨_, hyaml, hactive⟩
          simp only [KeystoreEnv.walletKey, hkey, hjson, hfile, hkeys, hkeys', htarget]
          exact decodeKeys_perm hperm hdecodes fun k hk k' hk' s s' hs hs' hwanted hwanted' =>
            hone k hk k' hk' s s' hs hs' (of_decide_eq_true hwanted) (of_decide_eq_true hwanted')
    rw [ZingWallet.fromKeystore, ZingWallet.fromKeystore, hsame]

/-- A key in Base64 whose seed is 1 throughout, and one whose seed is 2 throughout. -/
def oneKey : String := "AAEBAQEBAQEBAQEBAQEBAQEBAQEBAQEBAQEBAQEBAQEB"

def twoKey : String := "AAICAgICAgICAgICAgICAgICAgICAgICAgICAgICAgIC"

/-- The file of a keystore with two keys. -/
def keystoreText (k k' : String) : String :=
  let quote := String.singleton quoteMark
  "[" ++ quote ++ k ++ quote ++ "," ++ quote ++ k' ++ quote ++ "]"

def sampleKeyLib : KeyLib where
  base64Decode k :=
    if k = oneKey then .ok (0 :: List.replicate 32 1)
    else if k = twoKey then .ok (0 :: List.replicate 32 2)
    else .error "Invalid padding"
  parseKeys text :=
    if text = keystoreText twoKey oneKey then .ok [twoKey, oneKey]
    else if text = keystoreText oneKey twoKey then .ok [oneKey, twoKey]
    else .error "expected value"
  deriveAddress seed := ⟨seed⟩

/-- The active address, as text. -/
def sampleAddressText : String := sampleExternals.addressText (List.replicate 32 1)

def environmentLine : List Char := "active_env: mainnet".toList

def activeLine : List Char :=
  activeAddressMark ++ ([' '] ++ ([quoteMark] ++ sampleAddressText.toList ++ [quoteMark]))

/-- A `client.yaml` with an environment and the active address. -/
def sampleYaml : String := String.ofList (['\n'].intercalate [environmentLine, activeLine])

def sampleKeystoreEnv : KeystoreEnv :=
  ⟨none, none, .ok (keystoreText twoKey oneKey), some sampleYaml⟩

/-- The line names its address in quotes. -/
theorem lineAddress_activeLine : lineAddress activeLine = some sampleAddressText.toList := by
  have hblank : ∀ c ∈ [' '], isWhitespace c = true := List.forall_mem_singleton.mpr (by decide)
  have hquote : ∀ c ∈ [quoteMark], c = quoteMark := List.forall_mem_singleton.mpr rfl
  have htext : ∀ c ∈ sampleAddressText.toList, Bare c := by
    have hall : sampleAddressText.toList.all (fun c => decide (Bare c)) = true := by decide
    exact fun c hc => of_decide_eq_true (List.all_eq_true.mp hall c hc)
  have hwritten := lineAddress_written (List.forall_mem_nil _) hblank hquote hquote
    (List.forall_mem_nil _) (by decide) htext
  rwa [List.nil_append, List.append_nil] at hwritten

/-- The file names it behind a line without one. -/
theorem namesActive_sampleYaml :
    NamesActive sampleExternals sampleYaml ⟨List.Vector.replicate 32 1⟩ := by
  have hlines : ∀ l ∈ [environmentLine] ++ activeLine :: [], '\n' ∉ l :=
    List.forall_mem_cons.mpr ⟨by decide, List.forall_mem_singleton.mpr (by decide)⟩
  have hother : lineAddress environmentLine = none := by decide
  have hparse : sampleExternals.parseAddress (String.ofList sampleAddressText.toList)
      = .ok ⟨List.Vector.replicate 32 1⟩ := by
    rw [String.ofList_toList]
    simp only [sampleExternals, sampleAddressText, if_true]
  have hnames := namesActive_of_lines hlines lineAddress_activeLine
    (List.forall_mem_singleton.mpr hother) hparse
  exact hnames

/-- The first key can be used. -/
theorem hasSeed_oneKey : sampleKeyLib.HasSeed oneKey (List.Vector.replicate 32 1) :=
  ⟨_, rfl, rfl⟩

/-- So can the second. -/
theorem hasSeed_twoKey : sampleKeyLib.HasSeed twoKey (List.Vector.replicate 32 2) :=
  ⟨_, rfl, rfl⟩

/-- The two keystores hold the keys in the two orders. -/
theorem parseKeys_keystoreText :
    sampleKeyLib.parseKeys (keystoreText twoKey oneKey) = .ok [twoKey, oneKey] ∧
      sampleKeyLib.parseKeys (keystoreText oneKey twoKey) = .ok [oneKey, twoKey] := by
  constructor
  · simp only [sampleKeyLib, if_true]
  · have hne : keystoreText oneKey twoKey ≠ keystoreText twoKey oneKey := by decide
    simp only [sampleKeyLib, if_neg hne, if_true]

/-- The keys of the file count, and the active address. -/
theorem offers_sampleKeystoreEnv : sampleKeystoreEnv.Offers sampleExternals sampleKeyLib
    [twoKey, oneKey] (some ⟨List.Vector.replicate 32 1⟩) :=
  .file rfl rfl rfl parseKeys_keystoreText.1 rfl namesActive_sampleYaml

/-- The key of the active address is found behind another, and before it. -/
theorem node_identity_reordered :
    ZingWallet.fromKeystore sampleKeystoreEnv sampleExternals sampleKeyLib none
      = .ok (⟨⟨List.Vector.replicate 32 1⟩, none⟩, List.Vector.replicate 32 1) ∧
    ZingWallet.fromKeystore
        { sampleKeystoreEnv with keystoreFile := .ok (keystoreText oneKey twoKey) }
        sampleExternals sampleKeyLib none
      = .ok (⟨⟨List.Vector.replicate 32 1⟩, none⟩, List.Vector.replicate 32 1) := by
  obtain ⟨hfound, hordered⟩ :=
    node_identity sampleKeystoreEnv sampleExternals sampleKeyLib none
  have htwo : sampleKeyLib.Passes (Wanted (some ⟨List.Vector.replicate 32 1⟩)) twoKey := by
    obtain ⟨raw, hraw, hseed⟩ := hasSeed_twoKey
    refine ⟨raw, hraw, fun seed hseed' => ?_⟩
    obtain rfl := Option.some.inj (hseed.symm.trans hseed')
    show ¬ (_ = _)
    decide
  have hfirst := (hfound ⟨⟨List.Vector.replicate 32 1⟩, none⟩ _).mpr ⟨rfl, [twoKey, oneKey],
    some ⟨List.Vector.replicate 32 1⟩, offers_sampleKeystoreEnv, [twoKey], oneKey, [], rfl,
    List.forall_mem_singleton.mpr htwo, hasSeed_oneKey, rfl⟩
  refine ⟨hfirst, ?_⟩
  rw [hordered _ _ _ [oneKey, twoKey] offers_sampleKeystoreEnv ?_ (List.Perm.swap _ _ _) ?_ ?_]
  · exact hfirst
  · exact parseKeys_keystoreText.2
  · exact List.forall_mem_cons.mpr ⟨⟨_, rfl⟩, List.forall_mem_singleton.mpr ⟨_, rfl⟩⟩
  · intro k _ k' _ s s' _ _ hs hs'
    exact congrArg Address.bytes (hs.trans hs'.symm)

end Identity

end ZingCdn
