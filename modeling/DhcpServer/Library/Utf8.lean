import DhcpServer.Library.JsonStrings

/-!
# The characters of UTF-8

A character is a lead byte with as many tail bytes as it says. Four lead bytes restrict the byte behind
them as well: without that the form would be longer than needed, or the value a surrogate or above
U+10FFFF.
-/

namespace DhcpServer.Library.Utf8

open JsonReading (IsUtf8)
open List

def isTail (byte : UInt8) : Bool := 0x80 ≤ byte && byte ≤ 0xBF

def isSequence : Bytes → Bool
  | [first] => first ≤ 0x7F
  | [first, second] => 0xC2 ≤ first && first ≤ 0xDF && isTail second
  | [first, second, third] => 0xE0 ≤ first && first ≤ 0xEF && isTail second && isTail third
  | [first, second, third, fourth] =>
    0xF0 ≤ first && first ≤ 0xF4 && isTail second && isTail third && isTail fourth
  | _ => false

def secondFits : Bytes → Bool
  | first :: second :: _ =>
    !(first == 0xE0 && second < 0xA0) && !(first == 0xED && 0x9F < second) &&
      !(first == 0xF0 && second < 0x90) && !(first == 0xF4 && 0x8F < second)
  | _ => true

def leadWidth (lead : UInt8) : Nat :=
  if lead < 0x80 then 1 else if lead < 0xE0 then 2 else if lead < 0xF0 then 3 else 4

theorem isTail_iff {byte : UInt8} : isTail byte ↔ 128 ≤ byte.toNat ∧ byte.toNat ≤ 191 := by
  simp only [isTail, Bool.and_eq_true, decide_eq_true_eq, UInt8.le_iff_toNat_le]
  rfl

theorem byteOf_eq (byte : UInt8) {value : Nat} (hvalue : value = byte.toNat) : UInt8.ofNat value = byte := by
  rw [hvalue, UInt8.ofNat_toNat]

theorem exists_char (code : Nat) (hcode : code < 0xD800 ∨ 0xDFFF < code ∧ code < 0x110000) :
    ∃ character : Char, character.val.toNat = code := by
  refine ⟨Char.ofNat code, ?_⟩
  rw [Char.ofNat, dif_pos hcode]
  rfl

theorem secondFits_iff {first second : UInt8} {rest : Bytes} : secondFits (first :: second :: rest) ↔
      (first.toNat = 224 → 160 ≤ second.toNat) ∧ (first.toNat = 237 → second.toNat ≤ 159) ∧
        (first.toNat = 240 → 144 ≤ second.toNat) ∧ (first.toNat = 244 → second.toNat ≤ 143) := by
  simp only [secondFits, Bool.and_eq_true, Bool.not_eq_true', Bool.and_eq_false_iff, beq_eq_false_iff_ne,
    ne_eq, decide_eq_false_iff_not, UInt8.lt_iff_toNat_lt, ← UInt8.toNat_inj]
  change ((((¬first.toNat = 224 ∨ ¬second.toNat < 160) ∧ (¬first.toNat = 237 ∨ ¬159 < second.toNat)) ∧
    (¬first.toNat = 240 ∨ ¬second.toNat < 144)) ∧ (¬first.toNat = 244 ∨ ¬143 < second.toNat)) ↔ _
  omega

theorem isSequence_two {first second : UInt8} : isSequence [first, second] ↔
    (194 ≤ first.toNat ∧ first.toNat ≤ 223) ∧ 128 ≤ second.toNat ∧ second.toNat ≤ 191 := by
  simp only [isSequence, Bool.and_eq_true, decide_eq_true_eq, isTail_iff, UInt8.le_iff_toNat_le]
  rfl

theorem isSequence_three {first second third : UInt8} : isSequence [first, second, third] ↔
    ((224 ≤ first.toNat ∧ first.toNat ≤ 239) ∧ 128 ≤ second.toNat ∧ second.toNat ≤ 191) ∧
      128 ≤ third.toNat ∧ third.toNat ≤ 191 := by
  simp only [isSequence, Bool.and_eq_true, decide_eq_true_eq, isTail_iff, UInt8.le_iff_toNat_le]
  rfl

theorem isSequence_four {first second third fourth : UInt8} :
    isSequence [first, second, third, fourth] ↔
      (((240 ≤ first.toNat ∧ first.toNat ≤ 244) ∧ 128 ≤ second.toNat ∧ second.toNat ≤ 191) ∧
        128 ≤ third.toNat ∧ third.toNat ≤ 191) ∧ 128 ≤ fourth.toNat ∧ fourth.toNat ≤ 191 := by
  simp only [isSequence, Bool.and_eq_true, decide_eq_true_eq, isTail_iff, UInt8.le_iff_toNat_le]
  rfl

variable {character : Bytes}

theorem exists_char_of_sequence (hsequence : isSequence character)
    (hsecond : secondFits character) :
    ∃ scalar : Char, character = String.utf8EncodeChar scalar := by
  match character with
  | [first] =>
    have hfirst : first.toNat ≤ 127 := by simpa [isSequence, UInt8.le_iff_toNat_le] using hsequence
    obtain ⟨scalar, hscalar⟩ := exists_char first.toNat (by omega)
    refine ⟨scalar, ?_⟩
    rw [String.utf8EncodeChar, hscalar, if_pos (by omega), UInt8.ofNat_toNat]
  | [first, second] =>
    have hbytes := isSequence_two.mp hsequence
    obtain ⟨scalar, hscalar⟩ := exists_char ((first.toNat - 192) * 64 + (second.toNat - 128)) (by omega)
    refine ⟨scalar, ?_⟩
    rw [String.utf8EncodeChar, hscalar, if_neg (by omega), if_pos (by omega), byteOf_eq first,
      byteOf_eq second] <;> omega
  | [first, second, third] =>
    have hbytes := isSequence_three.mp hsequence
    have hfits := secondFits_iff.mp hsecond
    obtain ⟨scalar, hscalar⟩ := exists_char
      ((first.toNat - 224) * 4096 + (second.toNat - 128) * 64 + (third.toNat - 128)) (by omega)
    refine ⟨scalar, ?_⟩
    rw [String.utf8EncodeChar, hscalar, if_neg (by omega), if_neg (by omega), if_pos (by omega),
      byteOf_eq first, byteOf_eq second, byteOf_eq third] <;> omega
  | [first, second, third, fourth] =>
    have hbytes := isSequence_four.mp hsequence
    have hfits := secondFits_iff.mp hsecond
    obtain ⟨scalar, hscalar⟩ := exists_char ((first.toNat - 240) * 262144 +
      (second.toNat - 128) * 4096 + (third.toNat - 128) * 64 + (fourth.toNat - 128)) (by omega)
    refine ⟨scalar, ?_⟩
    rw [String.utf8EncodeChar, hscalar, if_neg (by omega), if_neg (by omega), if_neg (by omega),
      byteOf_eq first, byteOf_eq second, byteOf_eq third,
      byteOf_eq fourth] <;> omega
  | [] => cases hsequence
  | _ :: _ :: _ :: _ :: _ :: _ => cases hsequence

theorem toNat_byteOf {value : Nat} (hvalue : value < 256) : (UInt8.ofNat value).toNat = value := by
  rw [UInt8.toNat_ofNat', Nat.mod_eq_of_lt hvalue]

theorem sequence_of_char (scalar : Char) :
    isSequence (String.utf8EncodeChar scalar) ∧ secondFits (String.utf8EncodeChar scalar) := by
  have hvalid : scalar.val.toNat < 0xD800 ∨ 0xDFFF < scalar.val.toNat ∧ scalar.val.toNat < 0x110000 :=
    scalar.valid
  rw [String.utf8EncodeChar]
  split_ifs with hone htwo hthree
  · refine ⟨?_, rfl⟩
    simp only [isSequence, decide_eq_true_eq, UInt8.le_iff_toNat_le]
    rw [toNat_byteOf (by omega)]
    exact hone
  · rw [isSequence_two, secondFits_iff, toNat_byteOf (by omega), toNat_byteOf (by omega)]
    omega
  · rw [isSequence_three, secondFits_iff, toNat_byteOf (by omega), toNat_byteOf (by omega),
      toNat_byteOf (by omega)]
    omega
  · rw [isSequence_four, secondFits_iff, toNat_byteOf (by omega), toNat_byteOf (by omega),
      toNat_byteOf (by omega), toNat_byteOf (by omega)]
    omega

theorem isCharacter_iff : isSequence character ∧ secondFits character ↔
      ∃ scalar : Char, character = String.utf8EncodeChar scalar := by
  constructor
  · rintro ⟨hsequence, hsecond⟩
    exact exists_char_of_sequence hsequence hsecond
  · rintro ⟨scalar, rfl⟩
    exact sequence_of_char scalar

theorem leadWidth_eq (lead : UInt8) : leadWidth lead =
    if lead.toNat < 128 then 1 else if lead.toNat < 224 then 2 else if lead.toNat < 240 then 3 else 4 := by
  simp only [leadWidth, UInt8.lt_iff_toNat_lt]
  rfl

theorem exists_lead (hsequence : isSequence character) :
    ∃ lead rest, character = lead :: rest ∧ rest.length + 1 = leadWidth lead ∧
      ∀ byte ∈ rest, isTail byte := by
  match character with
  | [first] =>
    have hfirst : first.toNat ≤ 127 := by simpa [isSequence, UInt8.le_iff_toNat_le] using hsequence
    refine ⟨first, [], rfl, ?_, by simp⟩
    rw [leadWidth_eq, if_pos (by omega)]
    rfl
  | [first, second] =>
    have hbytes := isSequence_two.mp hsequence
    refine ⟨first, [second], rfl, ?_, by simpa [isTail_iff] using hbytes.2⟩
    rw [leadWidth_eq, if_neg (by omega), if_pos (by omega)]
    rfl
  | [first, second, third] =>
    have hbytes := isSequence_three.mp hsequence
    refine ⟨first, [second, third], rfl, ?_, by simpa [isTail_iff] using ⟨hbytes.1.2, hbytes.2⟩⟩
    rw [leadWidth_eq, if_neg (by omega), if_neg (by omega), if_pos (by omega)]
    rfl
  | [first, second, third, fourth] =>
    have hbytes := isSequence_four.mp hsequence
    refine ⟨first, [second, third, fourth], rfl, ?_,
      by simpa [isTail_iff] using ⟨hbytes.1.1.2, hbytes.1.2, hbytes.2⟩⟩
    rw [leadWidth_eq, if_neg (by omega), if_neg (by omega), if_neg (by omega)]
    rfl
  | [] => cases hsequence
  | _ :: _ :: _ :: _ :: _ :: _ => cases hsequence

theorem isUtf8_nil : IsUtf8 [] := ⟨[], rfl⟩

theorem isUtf8_append_iff {character rest : Bytes} (hsequence : isSequence character) :
    IsUtf8 (character ++ rest) ↔ secondFits character ∧ IsUtf8 rest := by
  obtain ⟨lead, tail, rfl, hlength, -⟩ := exists_lead hsequence
  constructor
  · rintro ⟨_ | ⟨scalar, scalars⟩, htext⟩
    · cases htext
    · rw [flatMap_cons] at htext
      obtain ⟨hscalar, hsecond⟩ := isCharacter_iff.mpr ⟨scalar, rfl⟩
      obtain ⟨lead', tail', hencoded, hlength', -⟩ := exists_lead hscalar
      rw [hencoded] at htext hsecond
      obtain ⟨rfl, hrest⟩ := cons.inj htext
      obtain ⟨rfl, rfl⟩ := append_inj hrest (by omega)
      exact ⟨hsecond, scalars, rfl⟩
  · rintro ⟨hsecond, scalars, rfl⟩
    obtain ⟨scalar, hscalar⟩ := isCharacter_iff.mp ⟨hsequence, hsecond⟩
    exact ⟨scalar :: scalars, by rw [hscalar, flatMap_cons]⟩

theorem isUtf8_flatten_iff {characters : List Bytes}
    (hall : ∀ character ∈ characters, isSequence character) :
    IsUtf8 characters.flatten ↔ ∀ character ∈ characters, secondFits character := by
  induction characters with
  | nil => simp [isUtf8_nil]
  | cons character characters ih =>
    obtain ⟨hfirst, hrest⟩ := forall_mem_cons.mp hall
    rw [flatten_cons, isUtf8_append_iff hfirst, ih hrest, forall_mem_cons]

end DhcpServer.Library.Utf8
