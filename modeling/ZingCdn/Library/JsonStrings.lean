import Mathlib.Data.List.Basic

/-!
# Arrays of Strings in JSON

The compact JSON text of an array of strings, in bytes, and a reader of such texts. Strings are
given by their bytes. A quotation mark and a backslash stand behind a backslash, a control
character is written by its code, and every other byte stands for itself.

The reader finds the end of a string by itself, so it can tell whether anything stands behind an
array; `readArray_append` is the round trip with whatever is behind it.
-/

namespace JsonStrings

/-- The bytes of `"`, `,`, `[`, the backslash, `]` and `u`. -/
def quoteByte : UInt8 := 34
def comma : UInt8 := 44
def openByte : UInt8 := 91
def backslash : UInt8 := 92
def closeByte : UInt8 := 93
def unicodeByte : UInt8 := 117

/-- The lowercase hexadecimal digit of a value below 16. -/
def hexByte (n : UInt8) : UInt8 := if n < 10 then 48 + n else 87 + n

/-- The value of a lowercase hexadecimal digit. -/
def hexValue (c : UInt8) : UInt8 := if c < 58 then c - 48 else c - 87

/-- A byte within a string. -/
def escape (b : UInt8) : List UInt8 :=
  if b = quoteByte ∨ b = backslash then [backslash, b]
  else if b < 32 then [backslash, unicodeByte, 48, 48, hexByte (b / 16), hexByte (b % 16)]
  else [b]

/-- A string in quotation marks, behind the first one. -/
def stringText (s : List UInt8) : List UInt8 := s.flatMap escape ++ [quoteByte]

/-- The strings behind the first one. -/
def restText (l : List (List UInt8)) : List UInt8 :=
  l.flatMap (fun s => comma :: quoteByte :: stringText s) ++ [closeByte]

/-- The text of an array of strings. -/
def arrayText : List (List UInt8) → List UInt8
  | [] => [openByte, closeByte]
  | s :: l => openByte :: quoteByte :: (stringText s ++ restText l)

/-- Read a string up to its closing quotation mark. -/
def readString : List UInt8 → Option (List UInt8 × List UInt8)
  | [] => none
  | 34 :: r => some ([], r)
  | 92 :: 117 :: 48 :: 48 :: high :: low :: r =>
      (readString r).map fun p => ((hexValue high * 16 + hexValue low) :: p.1, p.2)
  | 92 :: c :: r => (readString r).map fun p => (c :: p.1, p.2)
  | b :: r => (readString r).map fun p => (b :: p.1, p.2)

/-- Read so many strings at most, up to the closing bracket. -/
def readRest : ℕ → List UInt8 → Option (List (List UInt8) × List UInt8)
  | 0, _ => none
  | n + 1, r =>
      if r.head? = some closeByte then some ([], r.tail)
      else if r.take 2 = [comma, quoteByte] then do
        let (s, r) ← readString (r.drop 2)
        let (l, r) ← readRest n r
        some (s :: l, r)
      else none

/-- Read an array with nothing behind it. -/
def readArray (r : List UInt8) : Option (List (List UInt8)) :=
  if r = [openByte, closeByte] then some []
  else if r.take 2 = [openByte, quoteByte] then do
    let (s, rest) ← readString (r.drop 2)
    let (l, rest) ← readRest r.length rest
    if rest = [] then some (s :: l) else none
  else none

/-! ### Strings -/

/-- The two digits of a control character are read back. -/
theorem hexValue_hexByte {b : UInt8} (h : b < 32) :
    hexValue (hexByte (b / 16)) * 16 + hexValue (hexByte (b % 16)) = b := by
  have hall : ∀ n : Fin 32, hexValue (hexByte (UInt8.ofNat n.val / 16)) * 16 +
      hexValue (hexByte (UInt8.ofNat n.val % 16)) = UInt8.ofNat n.val := by
    decide
  have hlt : b.toNat < 32 := h
  have := hall ⟨b.toNat, hlt⟩
  rwa [UInt8.ofNat_toNat] at this

/-- One byte of a string is read back. -/
theorem readString_escape (b : UInt8) (r : List UInt8) :
    readString (escape b ++ r) = (readString r).map fun p => (b :: p.1, p.2) := by
  rw [escape]
  split
  · next hspecial =>
      rcases hspecial with rfl | rfl <;> rfl
  · next hplain =>
      obtain ⟨hquote, hback⟩ := not_or.mp hplain
      split
      · next hcontrol =>
          have hread : readString (backslash :: unicodeByte :: 48 :: 48 :: hexByte (b / 16) ::
              hexByte (b % 16) :: r) = (readString r).map fun p =>
                ((hexValue (hexByte (b / 16)) * 16 + hexValue (hexByte (b % 16))) :: p.1,
                  p.2) := rfl
          rw [hexValue_hexByte hcontrol] at hread
          exact hread
      · rw [List.singleton_append, readString]
        · exact hquote
        · exact fun _ _ _ heq => absurd heq hback
        · exact fun _ _ heq => absurd heq hback

/-- A string is read back, whatever follows. -/
theorem readString_stringText (s r : List UInt8) :
    readString (stringText s ++ r) = some (s, r) := by
  rw [stringText, List.append_assoc]
  induction s with
  | nil => rfl
  | cons b s ih => rw [List.flatMap_cons, List.append_assoc, readString_escape, ih, Option.map_some]

/-! ### Arrays -/

/-- So is the rest of an array. -/
theorem readRest_restText {l : List (List UInt8)} {n : ℕ} (h : l.length < n) (r : List UInt8) :
    readRest n (restText l ++ r) = some (l, r) := by
  induction l generalizing n with
  | nil =>
      obtain ⟨n, rfl⟩ := Nat.exists_eq_succ_of_ne_zero (Nat.ne_zero_of_lt h)
      rfl
  | cons s l ih =>
      obtain ⟨n, rfl⟩ := Nat.exists_eq_succ_of_ne_zero (Nat.ne_zero_of_lt h)
      have htext : restText (s :: l) ++ r
          = comma :: quoteByte :: (stringText s ++ (restText l ++ r)) := by
        simp [restText, List.append_assoc]
      rw [htext, readRest, if_neg (by simp [comma, closeByte]), if_pos (by rfl)]
      simp only [List.drop_succ_cons, List.drop_zero, readString_stringText,
        ih (Nat.lt_of_succ_lt_succ h), Option.bind_eq_bind, Option.bind_some]

/-- The text of the rest is longer than the list, which bounds the fuel. -/
theorem length_le_restText (l : List (List UInt8)) : l.length < (restText l).length := by
  induction l with
  | nil => exact Nat.zero_lt_one
  | cons s l ih =>
      simp only [restText, List.flatMap_cons, List.length_append, List.length_cons] at ih ⊢
      omega

/-- **The round trip**: an array is read back when nothing is behind it, and is not read with
something behind it. -/
theorem readArray_append (l : List (List UInt8)) (r : List UInt8) :
    readArray (arrayText l ++ r) = if r = [] then some l else none := by
  cases l with
  | nil =>
      rcases r with - | ⟨b, r⟩
      · rfl
      · rw [readArray, if_neg (by simp [arrayText]),
          if_neg (by simp [arrayText, closeByte, quoteByte]), if_neg (List.cons_ne_nil b r)]
  | cons s l =>
      have htext : arrayText (s :: l) ++ r
          = openByte :: quoteByte :: (stringText s ++ (restText l ++ r)) := by
        simp [arrayText, List.append_assoc]
      have hfuel : l.length < (arrayText (s :: l) ++ r).length := by
        have := length_le_restText l
        simp only [htext, List.length_cons, List.length_append]
        omega
      rw [readArray, if_neg (by simp [htext, quoteByte, closeByte]), if_pos (by rw [htext]; rfl)]
      simp only [htext, List.drop_succ_cons, List.drop_zero, readString_stringText,
        Option.bind_eq_bind, Option.bind_some]
      rw [← htext, readRest_restText hfuel, Option.bind_some]

/-- An array ends in its bracket. -/
theorem getLast?_arrayText (l : List (List UInt8)) :
    (arrayText l).getLast? = some closeByte := by
  cases l with
  | nil => rfl
  | cons s l =>
      have htext : arrayText (s :: l) = openByte :: quoteByte :: (stringText s ++
          l.flatMap (fun s => comma :: quoteByte :: stringText s)) ++ [closeByte] := by
        simp [arrayText, restText]
      rw [htext, List.getLast?_concat]

end JsonStrings
