import DhcpServer.Library.Numerals
import DhcpServer.Library.Utf8

/-!
# The spellings of a string

The characters of a JSON string are written as they are, as short escapes, or with four hexadecimal digits in
either case; a character above U+FFFF is then written as a surrogate pair.
-/

/-!
## Strings as a browser writes them

`JSON.stringify` of a text: quotes, backslashes and five control characters have short escapes, the other
control characters are written with four digits, and everything else stands for itself.
-/

namespace DhcpServer.Library.JsonText

def stringifiedByte (byte : UInt8) : Bytes :=
  if byte = 0x22 ∨ byte = 0x5C then [0x5C, byte]
  else if byte = 0x08 then [0x5C, 0x62]
  else if byte = 0x0C then [0x5C, 0x66]
  else if byte = 0x0A then [0x5C, 0x6E]
  else if byte = 0x0D then [0x5C, 0x72]
  else if byte = 0x09 then [0x5C, 0x74]
  else if byte < 0x20 then
    [0x5C, 0x75, 0x30, 0x30, numeralDigit (byte.toNat / 16), numeralDigit (byte.toNat % 16)]
  else [byte]

def stringified (text rest : Bytes) : Bytes := 0x22 :: (text.flatMap stringifiedByte ++ 0x22 :: rest)

theorem stringifiedByte_plain {byte : UInt8} (hprinted : 0x20 ≤ byte) (hquote : byte ≠ 0x22)
    (hslash : byte ≠ 0x5C) : stringifiedByte byte = [byte] := by
  have hcontrol {control : UInt8} (hcontrol : control < 0x20) : byte ≠ control := by
    rintro rfl
    exact absurd hcontrol (UInt8.not_lt.mpr hprinted)
  rw [stringifiedByte, if_neg (not_or.mpr ⟨hquote, hslash⟩), if_neg (hcontrol (by decide)),
    if_neg (hcontrol (by decide)), if_neg (hcontrol (by decide)), if_neg (hcontrol (by decide)),
    if_neg (hcontrol (by decide)), if_neg (UInt8.not_lt.mpr hprinted)]

theorem flatMap_stringifiedByte_plain {text : Bytes}
    (hplain : ∀ byte ∈ text, 0x20 ≤ byte ∧ byte ≠ 0x22 ∧ byte ≠ 0x5C) :
    text.flatMap stringifiedByte = text := by
  induction text with
  | nil => rfl
  | cons byte text ih =>
    obtain ⟨⟨hprinted, hquote, hslash⟩, htext⟩ := List.forall_mem_cons.mp hplain
    rw [List.flatMap_cons, stringifiedByte_plain hprinted hquote hslash, ih htext]
    rfl

theorem stringified_plain {text : Bytes}
    (hplain : ∀ byte ∈ text, 0x20 ≤ byte ∧ byte ≠ 0x22 ∧ byte ≠ 0x5C) (rest : Bytes) :
    stringified text rest = 0x22 :: (text ++ 0x22 :: rest) := by
  rw [stringified, flatMap_stringifiedByte_plain hplain]

theorem stringified_append (text first second : Bytes) :
    stringified text (first ++ second) = stringified text first ++ second := by
  simp [stringified]

end DhcpServer.Library.JsonText

namespace DhcpServer.Library.JsonText

open JsonReading (IsUtf8)

structure SpellsUnit (unit : Nat) (digits : Bytes) : Prop where
  length : digits.length = 4
  value : readNumeral 16 digits = some unit

inductive Spelling (scalar : Char) : Bytes → Prop
  | literal (hplain : scalar ≠ '"' ∧ scalar ≠ '\\') : Spelling scalar (String.utf8EncodeChar scalar)
  | short (letter : UInt8) (hletter : letter ∈ escapeLetters)
      (hmeant : scalar.val.toNat = (Piece.escaped letter).toNat) : Spelling scalar [0x5C, letter]
  | unit (digits : Bytes) (hdigits : SpellsUnit scalar.val.toNat digits) :
      Spelling scalar (0x5C :: 0x75 :: digits)
  | pair (high low : Bytes) (habove : 0x10000 ≤ scalar.val.toNat)
      (hhigh : SpellsUnit (0xD800 + (scalar.val.toNat - 0x10000) / 0x400) high)
      (hlow : SpellsUnit (0xDC00 + (scalar.val.toNat - 0x10000) % 0x400) low) :
      Spelling scalar (0x5C :: 0x75 :: (high ++ 0x5C :: 0x75 :: low))

inductive Spells : List Char → Bytes → Prop
  | nil : Spells [] []
  | cons {scalar : Char} {scalars : List Char} {first rest : Bytes} (hfirst : Spelling scalar first)
      (hrest : Spells scalars rest) : Spells (scalar :: scalars) (first ++ rest)

/-- The UTF-8 of a text. -/
def utf8 (scalars : List Char) : Bytes := scalars.flatMap String.utf8EncodeChar

theorem utf8EncodeChar_ascii {scalar : Char} (hascii : scalar.val.toNat < 128) :
    String.utf8EncodeChar scalar = [UInt8.ofNat scalar.val.toNat] := by
  rw [String.utf8EncodeChar, if_pos (by omega)]

theorem high_of_mem_utf8 {scalar : Char} (hhigh : 128 ≤ scalar.val.toNat) {byte : UInt8}
    (hbyte : byte ∈ String.utf8EncodeChar scalar) : 0x80 ≤ byte := by
  have hlead {value : Nat} (hvalue : 128 ≤ value ∧ value < 256) : 0x80 ≤ UInt8.ofNat value := by
    rw [UInt8.le_iff_toNat_le, Utf8.toNat_byteOf hvalue.2]
    exact hvalue.1
  rw [String.utf8EncodeChar] at hbyte
  split_ifs at hbyte
  · omega
  all_goals
    simp only [List.mem_cons, List.not_mem_nil, or_false] at hbyte
    rcases hbyte with rfl | rfl | rfl | rfl <;> exact hlead (by omega)

theorem spellsUnit_control :
    ∀ value < 32, SpellsUnit value [0x30, 0x30, numeralDigit (value / 16), numeralDigit (value % 16)] := by
  intro value hvalue
  refine ⟨rfl, ?_⟩
  revert value
  decide

theorem spelling_stringified (scalar : Char) :
    Spelling scalar ((String.utf8EncodeChar scalar).flatMap stringifiedByte) := by
  by_cases hascii : scalar.val.toNat < 128
  · have hbyte : (UInt8.ofNat scalar.val.toNat).toNat = scalar.val.toNat := Utf8.toNat_byteOf (by omega)
    rw [utf8EncodeChar_ascii hascii, List.flatMap_singleton]
    generalize hcode : UInt8.ofNat scalar.val.toNat = byte at hbyte ⊢
    rw [stringifiedByte]
    split_ifs with hself hb hf hn hr ht hcontrol
    · rcases hself with rfl | rfl
      · exact .short 0x22 (by decide) hbyte.symm
      · exact .short 0x5C (by decide) hbyte.symm
    · subst hb
      exact .short 0x62 (by decide) hbyte.symm
    · subst hf
      exact .short 0x66 (by decide) hbyte.symm
    · subst hn
      exact .short 0x6E (by decide) hbyte.symm
    · subst hr
      exact .short 0x72 (by decide) hbyte.symm
    · subst ht
      exact .short 0x74 (by decide) hbyte.symm
    · rw [hbyte]
      exact .unit _ (spellsUnit_control _ (hbyte ▸ UInt8.lt_iff_toNat_lt.mp hcontrol))
    · have hencoded : [byte] = String.utf8EncodeChar scalar := by rw [utf8EncodeChar_ascii hascii, hcode]
      rw [hencoded]
      refine .literal ⟨?_, ?_⟩
      · rintro rfl
        exact hself (.inl hcode.symm)
      · rintro rfl
        exact hself (.inr hcode.symm)
  · have hplain : ∀ byte ∈ String.utf8EncodeChar scalar, 0x20 ≤ byte ∧ byte ≠ 0x22 ∧ byte ≠ 0x5C := by
      intro byte hbyte
      have hhigh := UInt8.le_iff_toNat_le.mp (high_of_mem_utf8 (not_lt.mp hascii) hbyte)
      change 128 ≤ byte.toNat at hhigh
      refine ⟨UInt8.le_iff_toNat_le.mpr ?_, ?_, ?_⟩
      · change 32 ≤ byte.toNat
        omega
      · rintro rfl
        exact absurd hhigh (by decide)
      · rintro rfl
        exact absurd hhigh (by decide)
    rw [flatMap_stringifiedByte_plain hplain]
    refine .literal ⟨?_, ?_⟩
    · rintro rfl
      exact hascii (by decide)
    · rintro rfl
      exact hascii (by decide)

theorem spells_stringified (scalars : List Char) :
    Spells scalars ((utf8 scalars).flatMap stringifiedByte) := by
  induction scalars with
  | nil => exact .nil
  | cons scalar scalars ih =>
    rw [utf8, List.flatMap_cons, List.flatMap_append]
    exact .cons (spelling_stringified scalar) ih

end DhcpServer.Library.JsonText
