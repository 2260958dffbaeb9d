import ZingCdn.HttpApi
import ZingCdn.Library.Decimal

/-!
# Amounts of WAL

An amount is typed in WAL and delegated in its billionth parts. `parse_wal_amount`, which the
HTTP APIs of the node and of the desktop application share, splits the text at the dot, parses
both sides as `u64` after padding the fraction to nine places, and puts them together.

The parser of `u64` takes a leading plus sign, also in the fraction, where it takes the place of
a digit; and the multiplication of the whole part saturates, so that an amount without a
fraction is never too large. Amounts are displayed with nine decimal places.

## Main results

* `parseWalAmount_eq_ok_iff`: the texts that are parsed, and the amounts.
* `amounts_exact_iff`: the texts that are parsed as the numerals they are, or refused.
* `balance_round_trip`: a displayed balance is parsed as itself.
-/

open Decimal Program Program.Prog

namespace ZingCdn

/-! ### The parser -/

/-- Why the digits of a `u64` are refused, by the first of them that is. -/
def digitsError (acc : ℕ) : List Char → String
  | [] => "number too large to fit in target type"
  | c :: rest =>
      if ¬c.isDigit then "invalid digit found in string"
      else
        let acc := 10 * acc + (c.toNat - '0'.toNat)
        if u64Max < acc then "number too large to fit in target type"
        else digitsError acc rest

/-- The text of the error of `str::parse::<u64>`. -/
def parseU64Error (s : String) : String :=
  match s.toList with
  | [] => "cannot parse integer from empty string"
  | ['+'] => "invalid digit found in string"
  | '+' :: rest => digitsError 0 rest
  | cs => digitsError 0 cs

/-- `s.parse::<u64>().map_err(|e| e.to_string())`. -/
def parseU64OrError (s : String) : Except String ℕ :=
  match parseU64 s with
  | some n => .ok n
  | none => .error (parseU64Error s)

/-- `u64::saturating_mul`. -/
def saturatingMul (a b : ℕ) : ℕ := min (a * b) u64Max

/-- `u64::checked_add`. -/
def checkedAdd (a b : ℕ) : Option ℕ := if a + b ≤ u64Max then some (a + b) else none

/-- `s.split('.')`. -/
def splitDot (s : String) : List String := (s.toList.splitOn '.').map String.ofList

/-- `parse_wal_amount`. -/
def parseWalAmount (s : String) : Except String ℕ :=
  match splitDot s with
  | [whole] => (parseU64OrError whole).map (saturatingMul · 1000000000)
  | [whole, frac] => do
      let integer ← parseU64OrError whole
      if 9 < frac.utf8ByteSize then throw "too many decimal places (max 9)"
      let fracPadded := frac ++ String.ofList (List.replicate (9 - frac.length) '0')
      let fractional ← parseU64OrError fracPadded
      match checkedAdd (saturatingMul integer 1000000000) fractional with
      | some amount => pure amount
      | none => throw "amount overflow"
  | _ => .error "invalid amount format"

/-! ### Delegating -/

/-- What delegating asks of the wallet. -/
inductive WalletCall
  | delegate (vaultObjectId : String) (amountFrost : ℕ)

/-- The wallet's answers, its errors by their texts. -/
def WalletAns : WalletCall → Type
  | .delegate _ _ => Except String Unit

/-- The HTTP statuses of the errors. -/
inductive StatusCode
  | badRequest
  | internalServerError
deriving DecidableEq, Repr

/-- What delegating answers when it succeeded. -/
structure RegisterResult where
  success : Bool
  message : String
deriving DecidableEq

/-- What the two handlers share, over their errors before and behind the wallet's. -/
def delegateWith {PeerId ε : Type} (refused failed : String → ε)
    (state : HttpApiState PeerId) (vaultObjectId amount : String) :
    Prog WalletAns (Except ε RegisterResult) :=
  match state.wallet with
  | none => pure (.error (refused "Wallet not configured"))
  | some _ =>
      match parseWalAmount amount with
      | .error e => pure (.error (refused e))
      | .ok amountFrost => do
          let result ← (perform (.delegate vaultObjectId amountFrost) : Prog WalletAns _)
          match (result : Except String Unit) with
          | .error e => pure (.error (failed e))
          | .ok () => pure (.ok ⟨true, "Delegated successfully"⟩)

/-- `handle_delegate` of the node. -/
def handleDelegate {PeerId : Type} :
    HttpApiState PeerId → String → String →
      Prog WalletAns (Except (StatusCode × String) RegisterResult) :=
  delegateWith (.badRequest, ·) (.internalServerError, ·)

/-- `delegate` of the desktop application. -/
def Gui.delegate {PeerId : Type} :
    HttpApiState PeerId → String → String → Prog WalletAns (Except String RegisterResult) :=
  delegateWith id id

/-! ### Displaying -/

/-- A number with zeros in front, to a width. -/
def padded (width n : ℕ) : List Char :=
  List.replicate (width - (Nat.toDigits 10 n).length) '0' ++ Nat.toDigits 10 n

/-- `format_wal`, and the `balance_wal` of `handle_balance`. -/
def formatWal (amount : ℕ) : String :=
  toString (amount / 1000000000) ++ "." ++ String.ofList (padded 9 (amount % 1000000000))

example : formatWal 1050000000 = "1.050000000" := by decide

/-! ### Parsing a `u64` -/

/-- Digits, with a plus sign in front or without. -/
def signed (plus : Bool) (ds : List Char) : List Char := if plus then '+' :: ds else ds

/-- A sign is no digit. -/
theorem plus_not_mem {ds : List Char} (hds : Digits ds) : '+' ∉ ds := hds.not_mem rfl

/-- The sign and the digits can be told apart. -/
theorem signed_inj {p q : Bool} {ds es : List Char} (hds : Digits ds) (hes : Digits es)
    (h : signed p ds = signed q es) : p = q ∧ ds = es := by
  cases p <;> cases q
  · exact ⟨rfl, h⟩
  · obtain rfl : ds = '+' :: es := h
    exact absurd List.mem_cons_self (plus_not_mem hds)
  · obtain rfl : '+' :: ds = es := h
    exact absurd List.mem_cons_self (plus_not_mem hes)
  · exact ⟨rfl, (List.cons.inj h).2⟩

/-- What is behind the sign, if there is one. -/
def unsigned : List Char → List Char
  | '+' :: rest => rest
  | cs => cs

/-- Every text is its unsigned part, with or without a sign. -/
theorem exists_signed_unsigned (cs : List Char) : ∃ plus, cs = signed plus (unsigned cs) := by
  unfold unsigned
  split
  · exact ⟨true, rfl⟩
  · exact ⟨false, rfl⟩

/-- The sign is taken off again. -/
theorem unsigned_signed {plus : Bool} {ds : List Char} (hds : Digits ds) :
    unsigned (signed plus ds) = ds := by
  cases plus
  · rw [signed, if_neg Bool.false_ne_true, unsigned]
    rintro rest rfl
    exact plus_not_mem hds List.mem_cons_self
  · rfl

/-- What is parsed: digits behind an optional sign, when their value fits 64 bits. -/
theorem parseU64_ofList (cs : List Char) :
    parseU64 (String.ofList cs) =
      if (unsigned cs).isEmpty ∨ ¬(unsigned cs).all Char.isDigit then none
      else if value (unsigned cs) ≤ u64Max then some (value (unsigned cs)) else none := by
  rw [parseU64, String.toList_ofList]
  rfl

/-- **What `parse::<u64>` accepts**: digits that fit, behind a plus sign or not. -/
theorem parseU64_eq_some_iff {cs : List Char} {n : ℕ} :
    parseU64 (String.ofList cs) = some n ↔
      ∃ plus ds, cs = signed plus ds ∧ ds ≠ [] ∧ Digits ds ∧ value ds = n ∧ n ≤ u64Max := by
  rw [parseU64_ofList]
  constructor
  · intro h
    obtain ⟨plus, hcs⟩ := exists_signed_unsigned cs
    split at h
    · cases h
    · rename_i hdigits
      simp only [List.isEmpty_iff, List.all_eq_true, not_or, not_not] at hdigits
      split at h
      · rename_i hfits
        obtain rfl := Option.some.inj h
        exact ⟨plus, _, hcs, hdigits.1, hdigits.2, rfl, hfits⟩
      · cases h
  · rintro ⟨plus, ds, rfl, hne, hds, rfl, hfits⟩
    have hdigits : ¬(ds.isEmpty = true ∨ ¬ds.all Char.isDigit = true) := by
      simpa only [List.isEmpty_iff, List.all_eq_true, not_or, not_not] using ⟨hne, hds⟩
    rw [unsigned_signed hds, if_neg hdigits, if_pos hfits]

/-- The same as a result. -/
theorem parseU64OrError_eq_ok_iff {s : String} {n : ℕ} :
    parseU64OrError s = .ok n ↔ parseU64 s = some n := by
  rw [parseU64OrError]
  cases parseU64 s <;> simp

/-- A result that is mapped. -/
theorem map_eq_ok_iff {ε α β : Type} {x : Except ε α} {f : α → β} {b : β} :
    x.map f = .ok b ↔ ∃ a, x = .ok a ∧ f a = b := by
  cases x <;> simp [Except.map]

/-! ### The fraction -/

/-- The bytes of a text are those of its characters. -/
theorem utf8ByteSize_ofList (cs : List Char) :
    (String.ofList cs).utf8ByteSize = (cs.map Char.utf8Size).sum := by
  induction cs with
  | nil => rfl
  | cons c cs ih =>
      rw [String.ofList_cons, String.utf8ByteSize_append, String.utf8ByteSize_singleton, ih,
        List.map_cons, List.sum_cons]

/-- No text has fewer bytes than characters. -/
theorem length_le_utf8ByteSize (cs : List Char) : cs.length ≤ (String.ofList cs).utf8ByteSize := by
  rw [utf8ByteSize_ofList]
  induction cs with
  | nil => exact le_rfl
  | cons c cs ih =>
      rw [List.length_cons, List.map_cons, List.sum_cons, Nat.add_comm]
      exact Nat.add_le_add c.utf8Size_pos ih

/-- An ASCII character is one byte. -/
theorem utf8Size_of_toNat_lt {c : Char} (hc : c.toNat < 128) : c.utf8Size = 1 := by
  have hval : c.val ≤ 127 := UInt32.le_iff_toNat_le.mpr (Nat.le_of_lt_succ hc)
  rw [Char.utf8Size]
  exact if_pos hval

/-- A sign and digits have as many bytes as characters. -/
theorem utf8ByteSize_signed {plus : Bool} {ds : List Char} (hds : Digits ds) :
    (String.ofList (signed plus ds)).utf8ByteSize = (signed plus ds).length := by
  have hdigits : (ds.map Char.utf8Size).sum = ds.length := by
    induction ds with
    | nil => rfl
    | cons d ds ih =>
        obtain ⟨hd, hrest⟩ := List.forall_mem_cons.mp hds
        have hnine : d.toNat ≤ 57 := (Char.isDigit_iff_toNat.mp hd).2
        rw [List.map_cons, List.sum_cons, ih hrest, utf8Size_of_toNat_lt (by omega),
          List.length_cons, Nat.add_comm]
  rw [utf8ByteSize_ofList]
  cases plus
  · exact hdigits
  · rw [signed, if_pos rfl, List.map_cons, List.sum_cons, hdigits, List.length_cons, Nat.add_comm]
    rfl

/-- Zeros are put behind the digits, whatever is in front of them. -/
theorem signed_append (plus : Bool) (ds es : List Char) :
    signed plus ds ++ es = signed plus (ds ++ es) := by
  cases plus <;> rfl

/-- A sign is one character. -/
theorem length_signed (plus : Bool) (ds : List Char) :
    (signed plus ds).length = ds.length + plus.toNat := by
  cases plus <;> rfl

/-- A padded fraction is below a whole. -/
theorem value_padded_lt {plus : Bool} {ds : List Char} (hds : Digits ds)
    (hlength : (signed plus ds).length ≤ 9) :
    value ds * 10 ^ (9 - (signed plus ds).length) < 1000000000 := by
  have hlt := value_lt (digits_append_iff.mpr
    ⟨hds, digits_replicate_zero (9 - (signed plus ds).length)⟩)
  have hplaces : (ds ++ List.replicate (9 - (signed plus ds).length) '0').length ≤ 9 := by
    rw [List.length_append, List.length_replicate, length_signed] at *
    omega
  rw [value_padRight] at hlt
  exact hlt.trans_le (Nat.pow_le_pow_right (by omega) hplaces)

/-- **What is accepted as a fraction**: up to nine characters, digits behind a plus sign or not.
Its value is that of the digits in the places that they are left with. -/
theorem fraction_eq_some_iff {frac : List Char} {n : ℕ} :
    (¬9 < (String.ofList frac).utf8ByteSize ∧
      parseU64 (String.ofList frac ++
        String.ofList (List.replicate (9 - (String.ofList frac).length) '0')) = some n) ↔
    ∃ plus ds, frac = signed plus ds ∧ Digits ds ∧ frac.length ≤ 9 ∧
      value ds * 10 ^ (9 - frac.length) = n := by
  rw [String.length_ofList, ← String.ofList_append, parseU64_eq_some_iff]
  constructor
  · rintro ⟨hbytes, plus, ds, htext, -, hds, rfl, -⟩
    have hlength : frac.length ≤ 9 := (length_le_utf8ByteSize frac).trans (Nat.not_lt.mp hbytes)
    cases plus with
    | false =>
        obtain rfl : frac ++ List.replicate (9 - frac.length) '0' = ds := htext
        exact ⟨false, frac, rfl, (digits_append_iff.mp hds).1, hlength, (value_padRight _ _).symm⟩
    | true =>
        cases frac with
        | nil => exact absurd (List.cons.inj htext).1 (by decide)
        | cons c cs =>
            obtain ⟨rfl, rfl⟩ := List.cons.inj htext
            exact ⟨true, cs, rfl, (digits_append_iff.mp hds).1, hlength, (value_padRight _ _).symm⟩
  · rintro ⟨plus, ds, rfl, hds, hlength, rfl⟩
    refine ⟨?_, plus, ds ++ List.replicate (9 - (signed plus ds).length) '0', signed_append _ _ _,
      fun hnil => ?_, digits_append_iff.mpr ⟨hds, digits_replicate_zero _⟩, value_padRight _ _, ?_⟩
    · rw [utf8ByteSize_signed hds]
      exact Nat.not_lt.mpr hlength
    · have hzero := congrArg List.length hnil
      rw [List.length_append, List.length_replicate, length_signed, List.length_nil] at hzero
      have hone : plus.toNat ≤ 1 := Bool.toNat_le plus
      omega
    · have hlt := value_padded_lt hds hlength
      rw [u64Max]
      omega

/-! ### What the parser reads -/

/-- A text in the form that the parser accepts: digits behind a plus sign or not, and up to nine
characters behind the dot if there is one, which are of that form too. -/
structure Reading where
  plus : Bool
  whole : List Char
  fraction : Option (Bool × List Char)
  whole_ne_nil : whole ≠ []
  whole_digits : Digits whole
  fraction_digits : ∀ f ∈ fraction, Digits f.2
  fraction_short : ∀ f ∈ fraction, (signed f.1 f.2).length ≤ 9

namespace Reading

/-- The parts on the sides of the dot. -/
def parts (r : Reading) : List (List Char) :=
  match r.fraction with
  | none => [signed r.plus r.whole]
  | some (plus, ds) => [signed r.plus r.whole, signed plus ds]

/-- How the reading is written. -/
def text (r : Reading) : List Char := ['.'].intercalate r.parts

/-- The billionth parts that the fraction is read as. -/
def fractionUnits (r : Reading) : ℕ :=
  match r.fraction with
  | none => 0
  | some (plus, ds) => value ds * 10 ^ (9 - (signed plus ds).length)

/-- A plus sign in front of the whole part or of the fraction. -/
def IsSigned (r : Reading) : Prop := r.plus = true ∨ ∃ ds, r.fraction = some (true, ds)

/-- The amount that is read: the whole part saturates. -/
def amount (r : Reading) : ℕ := saturatingMul (value r.whole) 1000000000 + r.fractionUnits

/-- The whole part is a `u64`, and so is the amount. -/
def Fits (r : Reading) : Prop := value r.whole ≤ u64Max ∧ r.amount ≤ u64Max

/-- Without a fraction the whole part counts, as far as it fits. -/
theorem amount_of_none {r : Reading} (h : r.fraction = none) :
    r.amount = saturatingMul (value r.whole) 1000000000 := by
  rw [amount, fractionUnits, h, Nat.add_zero]

end Reading

/-- A signed number has no dot. -/
theorem dot_not_mem_signed {plus : Bool} {ds : List Char} (hds : Digits ds) :
    '.' ∉ signed plus ds := by
  have hdot : '.' ∉ ds := hds.not_mem rfl
  cases plus
  · exact hdot
  · rintro (_ | ⟨_, hmem⟩)
    exact hdot hmem

/-- A text is split into the parts of a reading when it is the reading's. -/
theorem Reading.splitOn_eq_parts_iff {r : Reading} {cs : List Char} :
    cs.splitOn '.' = r.parts ↔ cs = r.text := by
  refine ⟨fun h => by rw [Reading.text, ← h, List.intercalate_splitOn], ?_⟩
  rintro rfl
  refine List.splitOn_intercalate '.' ?_ ?_
  · intro l hl
    rw [Reading.parts] at hl
    split at hl
    · rw [List.mem_singleton.mp hl]
      exact dot_not_mem_signed r.whole_digits
    · rename_i plus ds hfraction
      rcases List.mem_pair.mp hl with rfl | rfl
      · exact dot_not_mem_signed r.whole_digits
      · exact dot_not_mem_signed (r.fraction_digits _ hfraction)
  · rw [Reading.parts]
    split <;> exact List.cons_ne_nil _ _

/-- A text without a dot is a whole number of WAL. -/
theorem parseWalAmount_whole {s : String} {cs : List Char} (h : s.toList.splitOn '.' = [cs]) :
    parseWalAmount s = (parseU64OrError (String.ofList cs)).map (saturatingMul · 1000000000) := by
  rw [parseWalAmount, splitDot, h]
  rfl

/-- With a fraction, both sides are parsed and the sum is checked. -/
theorem parseWalAmount_fraction_iff {s : String} {cs ds : List Char}
    (h : s.toList.splitOn '.' = [cs, ds]) {n : ℕ} :
    parseWalAmount s = .ok n ↔ ∃ whole fraction, parseU64 (String.ofList cs) = some whole ∧
      (¬9 < (String.ofList ds).utf8ByteSize ∧
        parseU64 (String.ofList ds ++
          String.ofList (List.replicate (9 - (String.ofList ds).length) '0')) = some fraction) ∧
      saturatingMul whole 1000000000 + fraction = n ∧ n ≤ u64Max := by
  rw [parseWalAmount, splitDot, h]
  simp only [List.map_cons, List.map_nil, bind_eq_ok_iff, parseU64OrError_eq_ok_iff]
  constructor
  · rintro ⟨whole, hwhole, hread⟩
    split at hread
    · cases hread
    · rename_i hbytes
      obtain ⟨fraction, hfraction, hsum⟩ := bind_eq_ok_iff.mp hread
      rw [parseU64OrError_eq_ok_iff] at hfraction
      rw [checkedAdd] at hsum
      split_ifs at hsum with hfits
      obtain rfl := Except.ok.inj hsum
      exact ⟨whole, fraction, hwhole, ⟨hbytes, hfraction⟩, rfl, hfits⟩
  · rintro ⟨whole, fraction, hwhole, ⟨hbytes, hfraction⟩, rfl, hfits⟩
    refine ⟨whole, hwhole, ?_⟩
    rw [if_neg hbytes, parseU64OrError_eq_ok_iff.mpr hfraction, bind_ok, checkedAdd,
      if_pos hfits]
    rfl

/-- **What is parsed**: the readings that fit, as their amounts. -/
theorem parseWalAmount_eq_ok_iff {s : String} {n : ℕ} :
    parseWalAmount s = .ok n ↔ ∃ r : Reading, s.toList = r.text ∧ r.Fits ∧ r.amount = n := by
  simp only [← Reading.splitOn_eq_parts_iff]
  constructor
  · intro hparse
    rcases hparts : s.toList.splitOn '.' with - | ⟨cs, - | ⟨ds, - | ⟨es, rest⟩⟩⟩
    · exact absurd hparts (List.splitOn_ne_nil _ _)
    · rw [parseWalAmount_whole hparts] at hparse
      obtain ⟨whole, hwhole, rfl⟩ := map_eq_ok_iff.mp hparse
      obtain ⟨plus, digits, rfl, hne, hdigits, rfl, hfits⟩ :=
        parseU64_eq_some_iff.mp (parseU64OrError_eq_ok_iff.mp hwhole)
      set r : Reading := ⟨plus, digits, none, hne, hdigits, nofun, nofun⟩
      have hamount : r.amount = saturatingMul (value digits) 1000000000 := Reading.amount_of_none rfl
      exact ⟨r, rfl, ⟨hfits, hamount.trans_le (min_le_right _ _)⟩, hamount⟩
    · obtain ⟨whole, fraction, hwhole, hfraction, rfl, hsum⟩ :=
        (parseWalAmount_fraction_iff hparts).mp hparse
      obtain ⟨plus, digits, rfl, hne, hdigits, rfl, hfits⟩ := parseU64_eq_some_iff.mp hwhole
      obtain ⟨sign, decimals, rfl, hdecimals, hshort, rfl⟩ := fraction_eq_some_iff.mp hfraction
      exact ⟨⟨plus, digits, some (sign, decimals), hne, hdigits, by rintro _ ⟨⟩; exact hdecimals,
        by rintro _ ⟨⟩; exact hshort⟩, rfl, ⟨hfits, hsum⟩, rfl⟩
    · rw [parseWalAmount, splitDot, hparts] at hparse
      cases hparse
  · rintro ⟨r, hparts, ⟨hfits, hsum⟩, rfl⟩
    have hwhole : parseU64 (String.ofList (signed r.plus r.whole)) = some (value r.whole) :=
      parseU64_eq_some_iff.mpr ⟨_, _, rfl, r.whole_ne_nil, r.whole_digits, rfl, hfits⟩
    rcases hfraction : r.fraction with - | ⟨plus, ds⟩
    · rw [Reading.parts, hfraction] at hparts
      rw [parseWalAmount_whole hparts, parseU64OrError_eq_ok_iff.mpr hwhole,
        Reading.amount_of_none hfraction]
      rfl
    · rw [Reading.parts, hfraction] at hparts
      refine (parseWalAmount_fraction_iff hparts).mpr ⟨_, r.fractionUnits, hwhole, ?_, rfl, hsum⟩
      rw [Reading.fractionUnits, hfraction]
      exact fraction_eq_some_iff.mpr ⟨plus, ds, rfl, r.fraction_digits _ hfraction,
        r.fraction_short _ hfraction, rfl⟩

/-! ### The numerals among the readings -/

/-- A text that is a numeral with up to nine decimal places, and its amount in billionth
parts. -/
def ExactAmount (s : String) (n : ℕ) : Prop :=
  ∃ m : Numeral, s.toList = m.text ∧ m.decimals.length ≤ 9 ∧ (n : ℚ) = m.value * 10 ^ 9 ∧
    n ≤ u64Max

namespace Reading

/-- The numeral without its signs. -/
def numeral (r : Reading) : Numeral :=
  ⟨r.whole, r.fraction.map Prod.snd, r.whole_ne_nil, r.whole_digits, by
    intro ds hds
    obtain ⟨f, hf, rfl⟩ := Option.mem_map.mp hds
    exact r.fraction_digits f hf⟩

/-- A numeral is read without signs. -/
def ofNumeral (m : Numeral) (hplaces : m.decimals.length ≤ 9) : Reading :=
  ⟨false, m.whole, m.fraction.map (false, ·), m.whole_ne_nil, m.whole_digits, by
    intro f hf
    obtain ⟨ds, hds, rfl⟩ := Option.mem_map.mp hf
    exact m.fraction_digits ds hds, by
    intro f hf
    obtain ⟨ds, hds, rfl⟩ := Option.mem_map.mp hf
    rwa [Numeral.decimals, Option.mem_def.mp hds] at hplaces⟩

/-- A numeral of nine places at most is read as it is. -/
theorem numeral_ofNumeral (m : Numeral) (hplaces : m.decimals.length ≤ 9) :
    (ofNumeral m hplaces).numeral = m := by
  obtain ⟨whole, fraction, -, -, -⟩ := m
  cases fraction <;> rfl

/-- It has no sign. -/
theorem not_isSigned_ofNumeral (m : Numeral) (hplaces : m.decimals.length ≤ 9) :
    ¬(ofNumeral m hplaces).IsSigned := by
  rintro (h | ⟨ds, h⟩)
  · cases h
  · obtain ⟨_, -, heq⟩ := Option.map_eq_some_iff.mp h
    cases heq

/-- Without signs, a reading is its numeral: the same text, and the same places. -/
theorem eq_of_not_isSigned {r : Reading} (h : ¬r.IsSigned) :
    r.text = r.numeral.text ∧ r.numeral.decimals.length ≤ 9 ∧
      r.fractionUnits = value r.numeral.decimals * 10 ^ (9 - r.numeral.decimals.length) := by
  obtain ⟨plus, whole, fraction, hne, hdigits, hfraction, hshort⟩ := r
  obtain rfl : plus = false := Bool.eq_false_of_not_eq_true fun hplus => h (.inl hplus)
  rcases fraction with - | ⟨_ | _, ds⟩
  · refine ⟨?_, Nat.zero_le _, (Nat.zero_mul _).symm⟩
    simp [text, parts, numeral, Numeral.text, signed]
  · refine ⟨?_, hshort _ rfl, rfl⟩
    simp [text, parts, numeral, Numeral.text, signed, List.intercalate]
  · exact absurd (.inr ⟨ds, rfl⟩) h

/-- The text says how it is read. -/
theorem text_injective : Function.Injective Reading.text := by
  intro r r' htext
  have hparts : r.parts = r'.parts :=
    (splitOn_eq_parts_iff.mpr rfl).symm.trans (splitOn_eq_parts_iff.mpr htext)
  obtain ⟨plus, whole, fraction, hne, hdigits, hfraction, hshort⟩ := r
  obtain ⟨plus', whole', fraction', hne', hdigits', hfraction', hshort'⟩ := r'
  rcases fraction with - | ⟨sign, ds⟩ <;> rcases fraction' with - | ⟨sign', ds'⟩
  · obtain ⟨rfl, rfl⟩ := signed_inj hdigits hdigits' (List.cons.inj hparts).1
    rfl
  · cases (List.cons.inj hparts).2
  · cases (List.cons.inj hparts).2
  · obtain ⟨rfl, rfl⟩ := signed_inj hdigits hdigits' (List.cons.inj hparts).1
    obtain ⟨rfl, rfl⟩ := signed_inj (hfraction _ rfl) (hfraction' _ rfl)
      (List.cons.inj (List.cons.inj hparts).2).1
    rfl

end Reading

/-- The numerals are the readings without signs. -/
theorem exactAmount_iff {s : String} {n : ℕ} :
    ExactAmount s n ↔ ∃ r : Reading, s.toList = r.text ∧ ¬r.IsSigned ∧
      value r.whole * 1000000000 + r.fractionUnits = n ∧ n ≤ u64Max := by
  constructor
  · rintro ⟨m, htext, hplaces, hvalue, hfits⟩
    set r := Reading.ofNumeral m hplaces with hr
    have hnumeral : r.numeral = m := Reading.numeral_ofNumeral m hplaces
    have hunsigned : ¬r.IsSigned := Reading.not_isSigned_ofNumeral m hplaces
    obtain ⟨hsame, -, hunits⟩ := Reading.eq_of_not_isSigned hunsigned
    rw [hnumeral] at hsame hunits
    refine ⟨r, htext.trans hsame.symm, hunsigned, ?_, hfits⟩
    rw [m.value_mul_pow hplaces] at hvalue
    rw [hunits]
    exact (Nat.cast_injective hvalue).symm
  · rintro ⟨r, htext, hunsigned, rfl, hfits⟩
    obtain ⟨hsame, hplaces, hunits⟩ := Reading.eq_of_not_isSigned hunsigned
    refine ⟨r.numeral, htext.trans hsame, hplaces, ?_, hfits⟩
    rw [r.numeral.value_mul_pow hplaces, hunits]
    rfl

/-! ### Exactness -/

/-- A text that is parsed as an amount it does not name: with a plus sign somewhere, or with a
whole part that is a `u64` but too large, and no fraction to make the sum overflow. -/
def Misread (s : String) : Prop :=
  ∃ r : Reading, s.toList = r.text ∧ r.Fits ∧
    (r.IsSigned ∨ u64Max < value r.whole * 1000000000)

/-- A whole part that fits is not saturated. -/
theorem Reading.amount_of_le {r : Reading} (h : value r.whole * 1000000000 ≤ u64Max) :
    r.amount = value r.whole * 1000000000 + r.fractionUnits := by
  rw [amount, saturatingMul, min_eq_left h]

/-- What is not misread is parsed exactly. -/
theorem parse_iff_of_not_misread {s : String} (h : ¬Misread s) {n : ℕ} :
    parseWalAmount s = .ok n ↔ ExactAmount s n := by
  rw [parseWalAmount_eq_ok_iff, exactAmount_iff]
  constructor
  · rintro ⟨r, htext, hfits, rfl⟩
    have hunsigned : ¬r.IsSigned := fun hsigned => h ⟨r, htext, hfits, .inl hsigned⟩
    have hsmall : value r.whole * 1000000000 ≤ u64Max :=
      Nat.not_lt.mp fun hlarge => h ⟨r, htext, hfits, .inr hlarge⟩
    exact ⟨r, htext, hunsigned, (Reading.amount_of_le hsmall).symm, hfits.2⟩
  · rintro ⟨r, htext, -, rfl, hfits⟩
    have hsmall : value r.whole * 1000000000 ≤ u64Max := (Nat.le_add_right _ _).trans hfits
    have hamount := Reading.amount_of_le hsmall
    have hwhole : value r.whole ≤ u64Max := (Nat.le_mul_of_pos_right _ (by omega)).trans hsmall
    exact ⟨r, htext, ⟨hwhole, hamount.trans_le hfits⟩, hamount⟩

/-- What a text is misread as is an amount that it does not name. -/
theorem Reading.not_exactAmount {r : Reading} {s : String} (htext : s.toList = r.text)
    (hwrong : r.IsSigned ∨ u64Max < value r.whole * 1000000000) : ¬ExactAmount s r.amount := by
  intro hexact
  obtain ⟨r', htext', hunsigned, hamount, hfits⟩ := exactAmount_iff.mp hexact
  obtain rfl := Reading.text_injective (htext.symm.trans htext')
  rcases hwrong with hsigned | hlarge
  · exact hunsigned hsigned
  · have hsum : value r.whole * 1000000000 ≤ r.amount := hamount ▸ Nat.le_add_right _ _
    omega

/-- The amount that is delegated is the one that was parsed. -/
theorem runs_delegateWith {PeerId ε : Type} {refused failed : String → ε}
    {state : HttpApiState PeerId} {vault s : String} {t : History WalletAns}
    {o : Option (Except ε RegisterResult)}
    (hrun : (delegateWith refused failed state vault s).Runs t o) {ev : Event WalletAns}
    (hev : ev ∈ t) : ∃ n, parseWalAmount s = .ok n ∧ ev.1 = .delegate vault n := by
  rw [delegateWith] at hrun
  split at hrun
  · obtain rfl := (runs_ret_iff.mp hrun).1
    cases hev
  · split at hrun
    · obtain rfl := (runs_ret_iff.mp hrun).1
      cases hev
    · rename_i n hparse
      obtain ⟨result, t', rfl, hrest⟩ := runs_call_iff.mp hrun
      obtain rfl : t' = [] := by
        change Except String Unit at result
        rcases result with e | ⟨⟩
        · exact (runs_ret_iff.mp hrest).1
        · exact (runs_ret_iff.mp hrest).1
      rw [List.mem_singleton.mp hev]
      exact ⟨n, hparse, rfl⟩

/-- **Which amounts are exact**: a text is parsed as the numeral it is or refused, and only what
it names is delegated, unless it is misread. -/
theorem amounts_exact_iff (s : String) :
    ((∀ n, parseWalAmount s = .ok n ↔ ExactAmount s n) ∧
      ∀ (PeerId : Type) (state : HttpApiState PeerId) (vault : String) (t : History WalletAns),
        (∀ o, (handleDelegate state vault s).Runs t o →
          ∀ ev ∈ t, ∃ n, ev.1 = .delegate vault n ∧ ExactAmount s n) ∧
        ∀ o, (Gui.delegate state vault s).Runs t o →
          ∀ ev ∈ t, ∃ n, ev.1 = .delegate vault n ∧ ExactAmount s n) ↔
    ¬Misread s := by
  constructor
  · rintro ⟨hparse, -⟩ hmisread
    obtain ⟨r, htext, hfits, hwrong⟩ := hmisread
    have hok := parseWalAmount_eq_ok_iff.mpr ⟨r, htext, hfits, rfl⟩
    exact r.not_exactAmount htext hwrong ((hparse _).mp hok)
  · intro hmisread
    have hparse : ∀ n, parseWalAmount s = .ok n ↔ ExactAmount s n :=
      fun n => parse_iff_of_not_misread hmisread
    refine ⟨hparse, fun PeerId state vault t => ⟨fun o hrun ev hev => ?_, fun o hrun ev hev => ?_⟩⟩
    · obtain ⟨n, hok, hcall⟩ := runs_delegateWith hrun hev
      exact ⟨n, hcall, (hparse n).mp hok⟩
    · obtain ⟨n, hok, hcall⟩ := runs_delegateWith hrun hev
      exact ⟨n, hcall, (hparse n).mp hok⟩

/-- A whole part without a fraction. -/
def Reading.ofWhole (plus : Bool) (ds : List Char) (hne : ds ≠ []) (hds : Digits ds) : Reading :=
  ⟨plus, ds, none, hne, hds, nofun, nofun⟩

/-- `+5` is parsed as five WAL, and a whole part just too large as the largest `u64`. -/
theorem plus_five_and_saturated_misread :
    (parseWalAmount "+5" = .ok 5000000000 ∧ ¬ExactAmount "+5" 5000000000) ∧
    parseWalAmount "18446744074" = .ok 18446744073709551615 ∧
      ¬ExactAmount "18446744074" 18446744073709551615 := by
  set five : Reading := .ofWhole true ['5'] (by decide) (by decide)
  set large : Reading := .ofWhole false "18446744074".toList (by decide) (by decide)
  have hfive : five.amount = 5000000000 := by
    rw [Reading.amount_of_none rfl]
    decide
  have hlarge : large.amount = 18446744073709551615 := by
    rw [Reading.amount_of_none rfl]
    decide
  have hfits : five.Fits ∧ large.Fits := by
    refine ⟨⟨by decide, hfive.trans_le (by decide)⟩, by decide, hlarge.le⟩
  refine ⟨⟨?_, ?_⟩, ?_, ?_⟩
  · exact parseWalAmount_eq_ok_iff.mpr ⟨five, rfl, hfits.1, hfive⟩
  · rw [← hfive]
    exact five.not_exactAmount rfl (.inl (.inl rfl))
  · exact parseWalAmount_eq_ok_iff.mpr ⟨large, rfl, hfits.2, hlarge⟩
  · rw [← hlarge]
    exact large.not_exactAmount rfl (.inr (by decide))

/-! ### Displayed amounts -/

/-- A padded number has its width. -/
theorem length_padded {width n : ℕ} (hwidth : 0 < width) (hn : n < 10 ^ width) :
    (padded width n).length = width := by
  have hdigits : (Nat.toDigits 10 n).length ≤ width :=
    (Nat.length_toDigits_le_iff (by omega) hwidth).mpr hn
  rw [padded, List.length_append, List.length_replicate]
  omega

/-- Padding is made of digits. -/
theorem digits_padded (width n : ℕ) : Digits (padded width n) :=
  digits_append_iff.mpr ⟨digits_replicate_zero _, digits_toDigits n⟩

/-- It is worth nothing. -/
theorem value_padded (width n : ℕ) : value (padded width n) = n := by
  rw [padded, value_padLeft, value_toDigits]

/-- How a displayed amount is read. -/
def displayed (n : ℕ) : Reading where
  plus := false
  whole := Nat.toDigits 10 (n / 1000000000)
  fraction := some (false, padded 9 (n % 1000000000))
  whole_ne_nil := Nat.toDigits_ne_nil
  whole_digits := digits_toDigits _
  fraction_digits := by
    rintro _ ⟨⟩
    exact digits_padded _ _
  fraction_short := by
    rintro _ ⟨⟩
    exact (length_padded (by omega) (Nat.mod_lt _ (by omega))).le

/-- What is displayed, character by character. -/
theorem toList_formatWal (n : ℕ) : (formatWal n).toList = (displayed n).text := by
  simp [formatWal, displayed, Reading.text, Reading.parts, signed, List.intercalate]

/-- **Amounts survive display**: a displayed balance is parsed as itself. -/
theorem balance_round_trip {n : ℕ} (hn : n ≤ u64Max) : parseWalAmount (formatWal n) = .ok n := by
  have hwhole : value (displayed n).whole = n / 1000000000 := value_toDigits _
  have hunits : (displayed n).fractionUnits = n % 1000000000 := by
    have hplaces : (padded 9 (n % 1000000000)).length = 9 :=
      length_padded (by omega) (Nat.mod_lt _ (by omega))
    have hvalue : (displayed n).fractionUnits =
        value (padded 9 (n % 1000000000)) * 10 ^ (9 - (padded 9 (n % 1000000000)).length) := rfl
    rw [hvalue, hplaces, value_padded, Nat.sub_self, Nat.pow_zero, Nat.mul_one]
  have hamount : (displayed n).amount = n := by
    rw [Reading.amount_of_le (by rw [hwhole]; omega), hwhole, hunits]
    exact Nat.div_add_mod' n 1000000000
  have hfits : value (displayed n).whole ≤ u64Max := by
    rw [hwhole]
    exact (Nat.div_le_self _ _).trans hn
  exact parseWalAmount_eq_ok_iff.mpr
    ⟨displayed n, toList_formatWal n, ⟨hfits, hamount.trans_le hn⟩, hamount⟩

/-- The largest balance. -/
theorem balance_round_trip_largest :
    parseWalAmount (formatWal 18446744073709551615) = .ok 18446744073709551615 :=
  balance_round_trip (by decide)

end ZingCdn
