import DhcpServer.Library.JsonText

/-!
# Reading the strings of JSON

A string is read from behind its opening quote up to the quote that closes it. It has no control
character, every escape in it is a known one, and what it stands for is UTF-8.

A text between quotes is read as itself exactly if it has nothing to escape.
-/

namespace DhcpServer.Library.JsonReading

open List Option

def quote : UInt8 := 0x22
def backslash : UInt8 := 0x5C

def hexValue (byte : UInt8) : Option Nat :=
  if 0x30 ≤ byte ∧ byte ≤ 0x39 then some (byte.toNat - 0x30)
  else if 0x61 ≤ byte ∧ byte ≤ 0x66 then some (byte.toNat - 0x61 + 10)
  else if 0x41 ≤ byte ∧ byte ≤ 0x46 then some (byte.toNat - 0x41 + 10)
  else none

def readUnit : Bytes → Option (Nat × Bytes)
  | first :: second :: third :: fourth :: rest =>
    match hexValue first, hexValue second, hexValue third, hexValue fourth with
    | some high, some upper, some lower, some low =>
      some (((high * 16 + upper) * 16 + lower) * 16 + low, rest)
    | _, _, _, _ => none
  | _ => none

/-- What stands behind `\u`: a character, or the two halves of one. -/
def readUnicode (text : Bytes) : Option (Bytes × Bytes) :=
  match readUnit text with
  | none => none
  | some (unit, rest) =>
    if 0xD800 ≤ unit ∧ unit < 0xDC00 then
      match rest with
      | mark :: letter :: rest =>
        if mark = backslash ∧ letter = 0x75 then
          match readUnit rest with
          | none => none
          | some (lower, rest) =>
            if 0xDC00 ≤ lower ∧ lower < 0xE000 then
              some (String.utf8EncodeChar (Char.ofNat
                (0x10000 + (unit - 0xD800) * 0x400 + (lower - 0xDC00))), rest)
            else none
        else none
      | _ => none
    else if 0xDC00 ≤ unit ∧ unit < 0xE000 then none
    else some (String.utf8EncodeChar (Char.ofNat unit), rest)

def readEscape : Bytes → Option (Bytes × Bytes)
  | [] => none
  | letter :: rest =>
    if letter = 0x75 then readUnicode rest
    else if letter ∈ JsonText.escapeLetters then some ([JsonText.Piece.escaped letter], rest)
    else none

theorem hexValue_quote : hexValue quote = none := by decide

theorem readUnit_eq {text rest : Bytes} {unit : Nat} (hunit : readUnit text = some (unit, rest)) :
    ∃ digits, text = digits ++ rest ∧ digits.length = 4 ∧ quote ∉ digits ∧
      ∀ more, readUnit (text ++ more) = some (unit, rest ++ more) := by
  match text, hunit with
  | first :: second :: third :: fourth :: tail, hunit =>
    rw [readUnit] at hunit
    split at hunit
    · rename_i high upper lower low hfirst hsecond hthird hfourth
      cases hunit
      refine ⟨[first, second, third, fourth], rfl, rfl, ?_, fun more ↦ ?_⟩
      · intro hquote
        simp only [mem_cons, not_mem_nil, or_false] at hquote
        rcases hquote with rfl | rfl | rfl | rfl
        all_goals simp only [hexValue_quote, reduceCtorEq] at *
      · simp only [cons_append, readUnit, hfirst, hsecond, hthird, hfourth]
    · cases hunit

theorem length_utf8EncodeChar_pos (character : Char) :
    0 < (String.utf8EncodeChar character).length ∧ (String.utf8EncodeChar character).length ≤ 4 := by
  rw [String.length_utf8EncodeChar]
  exact ⟨character.utf8Size_pos, character.utf8Size_le_four⟩

variable {text meant rest : Bytes}

theorem readUnicode_eq (hunicode : readUnicode text = some (meant, rest)) :
    ∃ used, text = used ++ rest ∧ 4 ≤ used.length ∧ 0 < meant.length ∧ meant.length ≤ 4 ∧
      quote ∉ used ∧ ∀ more, readUnicode (text ++ more) = some (meant, rest ++ more) := by
  rw [readUnicode] at hunicode
  cases hunit : readUnit text with
  | none =>
    rw [hunit] at hunicode
    cases hunicode
  | some read =>
    obtain ⟨unit, tail⟩ := read
    obtain ⟨digits, rfl, hdigits, hquote, hunits⟩ := readUnit_eq hunit
    simp only [hunit] at hunicode
    by_cases hhigh : 0xD800 ≤ unit ∧ unit < 0xDC00
    · rw [if_pos hhigh] at hunicode
      match tail, hunicode with
      | mark :: letter :: tail, hunicode =>
        dsimp only at hunicode
        split at hunicode
        · rename_i hmark
          obtain ⟨rfl, rfl⟩ := hmark
          split at hunicode
          · cases hunicode
          · rename_i lower after hlower
            obtain ⟨others, rfl, hothers, hothersQuote, hlowers⟩ := readUnit_eq hlower
            split at hunicode
            · rename_i hlow
              obtain ⟨hmeant, hrest⟩ := Prod.mk.inj (Option.some.inj hunicode)
              subst hmeant hrest
              have hlength := length_utf8EncodeChar_pos
                (Char.ofNat (0x10000 + (unit - 0xD800) * 0x400 + (lower - 0xDC00)))
              refine ⟨digits ++ [backslash, 0x75] ++ others, by simp, ?_, hlength.1, hlength.2, ?_, ?_⟩
              · simp only [length_append, hdigits, hothers]
                omega
              · simp only [mem_append, not_or]
                exact ⟨⟨hquote, by decide⟩, hothersQuote⟩
              · intro more
                rw [readUnicode, hunits more]
                simp only [if_pos hhigh, cons_append, and_self, if_true, hlowers more, if_pos hlow]
            · cases hunicode
        · cases hunicode
    · rw [if_neg hhigh] at hunicode
      by_cases hlow : 0xDC00 ≤ unit ∧ unit < 0xE000
      · rw [if_pos hlow] at hunicode
        cases hunicode
      · rw [if_neg hlow] at hunicode
        cases hunicode
        have hlength := length_utf8EncodeChar_pos (Char.ofNat unit)
        refine ⟨digits, rfl, hdigits.ge, hlength.1, hlength.2, hquote, fun more ↦ ?_⟩
        rw [readUnicode, hunits more]
        simp only [if_neg hhigh, if_neg hlow]

/-- An escape stands for no more bytes than it is written with, and a quote in it is all of it. -/
theorem readEscape_eq (hescape : readEscape text = some (meant, rest)) :
    ∃ used, text = used ++ rest ∧ 0 < used.length ∧ meant.length ≤ used.length ∧ 0 < meant.length ∧
      (quote ∈ used → meant = [quote]) ∧
      ∀ more, readEscape (text ++ more) = some (meant, rest ++ more) := by
  cases text with
  | nil => cases hescape
  | cons letter tail =>
    rw [readEscape] at hescape
    split_ifs at hescape with hletter hknown
    · obtain ⟨used, rfl, hused, hpos, hmeant, hquote, hmore⟩ := readUnicode_eq hescape
      refine ⟨letter :: used, rfl, by simp, ?_, hpos, ?_, fun more ↦ ?_⟩
      · rw [length_cons]
        omega
      · intro hmem
        rcases mem_cons.mp hmem with hfirst | hlater
        · rw [hletter] at hfirst
          exact absurd hfirst (by decide)
        · exact absurd hlater hquote
      · rw [cons_append, readEscape, if_pos hletter, hmore]
    · cases hescape
      refine ⟨[letter], rfl, by simp, le_refl _, by simp, ?_, fun more ↦ ?_⟩
      · intro hmem
        rw [← mem_singleton.mp hmem]
        rfl
      · rw [cons_append, readEscape, if_neg hletter, if_pos hknown]

theorem length_of_readEscape
    (hescape : readEscape text = some (meant, rest)) : rest.length < text.length := by
  obtain ⟨used, rfl, hpos, -⟩ := readEscape_eq hescape
  rw [length_append]
  omega

/-- The text of a string up to its closing quote, and what follows it. -/
def readChars : Bytes → Option (Bytes × Bytes)
  | [] => none
  | byte :: rest =>
    if byte = quote then some ([], rest)
    else if byte = backslash then
      match hescape : readEscape rest with
      | none => none
      | some (meant, rest') =>
        have := length_of_readEscape hescape
        (readChars rest').map fun (content, after) ↦ (meant ++ content, after)
    else if byte < 0x20 then none
    else (readChars rest).map fun (content, after) ↦ (byte :: content, after)
termination_by text => text.length

section Chars

theorem readChars_quote (rest : Bytes) : readChars (quote :: rest) = some ([], rest) := by
  rw [readChars, if_pos rfl]

theorem readChars_plain {byte : UInt8} (hquote : byte ≠ quote) (hslash : byte ≠ backslash)
    (hprinted : 0x20 ≤ byte) (rest : Bytes) :
    readChars (byte :: rest) = (readChars rest).map fun (content, after) ↦ (byte :: content, after) := by
  rw [readChars, if_neg hquote, if_neg hslash, if_neg (UInt8.not_lt.mpr hprinted)]

theorem readChars_escape {text meant rest : Bytes} (hescape : readEscape text = some (meant, rest)) :
    readChars (backslash :: text) =
      (readChars rest).map fun (content, after) ↦ (meant ++ content, after) := by
  rw [readChars, if_neg (by decide), if_pos rfl]
  split
  · rename_i hnone
    rw [hescape] at hnone
    cases hnone
  · rename_i meant' rest' hsome
    rw [hescape] at hsome
    cases hsome
    rfl

variable {text content after : Bytes}

theorem readChars_cases (hread : readChars text = some (content, after)) :
    (text = quote :: after ∧ content = []) ∨
    (∃ escaped meant rest content', text = backslash :: escaped ∧
      readEscape escaped = some (meant, rest) ∧ readChars rest = some (content', after) ∧
      content = meant ++ content') ∨
    ∃ byte rest content', text = byte :: rest ∧ byte ≠ quote ∧ byte ≠ backslash ∧ 0x20 ≤ byte ∧
      readChars rest = some (content', after) ∧ content = byte :: content' := by
  cases text with
  | nil =>
    rw [readChars] at hread
    cases hread
  | cons byte rest =>
    by_cases hquote : byte = quote
    · subst hquote
      rw [readChars_quote] at hread
      cases hread
      exact .inl ⟨rfl, rfl⟩
    · by_cases hslash : byte = backslash
      · subst hslash
        cases hescape : readEscape rest with
        | none =>
          rw [readChars, if_neg hquote, if_pos rfl] at hread
          split at hread
          · cases hread
          · rename_i hsome
            rw [hescape] at hsome
            cases hsome
        | some escape =>
          obtain ⟨meant, rest'⟩ := escape
          rw [readChars_escape hescape] at hread
          obtain ⟨⟨content', after'⟩, hrest, heq⟩ := map_eq_some_iff.mp hread
          cases heq
          exact .inr (.inl ⟨rest, meant, rest', content', rfl, hescape, hrest, rfl⟩)
      · by_cases hprinted : 0x20 ≤ byte
        · rw [readChars_plain hquote hslash hprinted] at hread
          obtain ⟨⟨content', after'⟩, hrest, heq⟩ := map_eq_some_iff.mp hread
          cases heq
          exact .inr (.inr ⟨byte, rest, content', rfl, hquote, hslash, hprinted, hrest, rfl⟩)
        · rw [readChars, if_neg hquote, if_neg hslash, if_pos (UInt8.not_le.mp hprinted)] at hread
          cases hread

def quotePlace (text : Bytes) : Nat := (text.takeWhile (· ≠ quote)).length

theorem quotePlace_cons {byte : UInt8} (hbyte : byte ≠ quote) (text : Bytes) :
    quotePlace (byte :: text) = quotePlace text + 1 := by
  simp [quotePlace, hbyte]

theorem quotePlace_append {front : Bytes} (hfront : quote ∉ front) (text : Bytes) :
    quotePlace (front ++ text) = front.length + quotePlace text := by
  induction front with
  | nil => simp
  | cons byte front ih =>
    obtain ⟨hbyte, hrest⟩ : quote ≠ byte ∧ quote ∉ front := by simpa using hfront
    rw [cons_append, quotePlace_cons (Ne.symm hbyte), ih hrest, length_cons]
    omega

theorem quotePlace_append_le (front text : Bytes) :
    quotePlace (front ++ text) ≤ front.length + quotePlace text := by
  induction front with
  | nil => simp
  | cons byte front ih =>
    by_cases hbyte : byte = quote
    · simp [quotePlace, hbyte]
    · rw [cons_append, quotePlace_cons hbyte, length_cons]
      omega

theorem quotePlace_append_quote (text rest : Bytes) :
    quotePlace (text ++ quote :: rest) = quotePlace text := by
  induction text with
  | nil => simp [quotePlace]
  | cons byte text ih =>
    by_cases hbyte : byte = quote
    · simp [quotePlace, hbyte]
    · rw [cons_append, quotePlace_cons hbyte, quotePlace_cons hbyte, ih]

theorem quotePlace_content_le
    (hread : readChars text = some (content, after)) : quotePlace content ≤ quotePlace text := by
  induction hlength : text.length using Nat.strong_induction_on generalizing text content with
  | _ length ih =>
    obtain ⟨rfl, rfl⟩ | ⟨escaped, meant, rest, content', rfl, hescape, hrest, rfl⟩ |
      ⟨byte, rest, content', rfl, hquote, -, -, hrest, rfl⟩ := readChars_cases hread
    · exact Nat.zero_le _
    · obtain ⟨used, rfl, hpos, hmeant, -, hused, -⟩ := readEscape_eq hescape
      have hlater := ih rest.length (by simp at hlength; omega) hrest rfl
      by_cases hmem : quote ∈ used
      · rw [hused hmem]
        simp [quotePlace]
      · have hcontent := quotePlace_append_le meant content'
        rw [quotePlace_cons (by decide), quotePlace_append hmem]
        omega
    · have hlater := ih rest.length (by simp at hlength; omega) hrest rfl
      rw [quotePlace_cons hquote, quotePlace_cons hquote]
      omega

def Plain (text : Bytes) : Prop := ∀ byte ∈ text, 0x20 ≤ byte ∧ byte ≠ quote ∧ byte ≠ backslash

instance (text : Bytes) : Decidable (Plain text) := List.decidableBAll _ text

theorem readChars_of_plain {text : Bytes} (hplain : Plain text) (rest : Bytes) :
    readChars (text ++ quote :: rest) = some (text, rest) := by
  induction text with
  | nil => exact readChars_quote rest
  | cons byte text ih =>
    obtain ⟨⟨hprinted, hquote, hslash⟩, htext⟩ := forall_mem_cons.mp hplain
    rw [cons_append, readChars_plain hquote hslash hprinted, ih htext]
    rfl

/-- A text that is read as itself has nothing to escape: behind a backslash the first quote would stand
too late. -/
theorem plain_of_readChars {text rest after : Bytes}
    (hread : readChars (text ++ quote :: rest) = some (text, after)) : Plain text ∧ after = rest := by
  induction text with
  | nil =>
    rw [nil_append, readChars_quote] at hread
    cases hread
    exact ⟨by simp [Plain], rfl⟩
  | cons first text ih =>
    obtain ⟨-, hnone⟩ | ⟨escaped, meant, tail, content, heq, hescape, htail, hcontent⟩ |
      ⟨byte, tail, content, heq, hquote, hslash, hprinted, htail, hcontent⟩ := readChars_cases hread
    · cases hnone
    · exfalso
      rw [cons_append] at heq
      obtain ⟨rfl, rfl⟩ := cons.inj heq
      obtain ⟨used, hused, hpos, hmeant, hfilled, hquote, -⟩ := readEscape_eq hescape
      have hnotMem : quote ∉ used := by
        intro hmem
        rw [hquote hmem] at hcontent
        exact absurd (cons.inj hcontent).1 (by decide)
      have hlater := quotePlace_content_le htail
      have htext : text = meant.tail ++ content := by
        cases meant with
        | nil => simp at hfilled
        | cons letter meant => exact (cons.inj hcontent).2
      have hplace : quotePlace text = used.length + quotePlace tail := by
        rw [← quotePlace_append hnotMem, ← hused, quotePlace_append_quote]
      have hbound := quotePlace_append_le meant.tail content
      rw [← htext, hplace, length_tail] at hbound
      omega
    · rw [cons_append] at heq
      obtain ⟨rfl, rfl⟩ := cons.inj heq
      obtain ⟨-, rfl⟩ := cons.inj hcontent
      obtain ⟨hplain, hafter⟩ := ih htail
      exact ⟨forall_mem_cons.mpr ⟨⟨hprinted, hquote, hslash⟩, hplain⟩, hafter⟩

theorem readChars_append (hread : readChars text = some (content, after))
    (more : Bytes) : readChars (text ++ more) = some (content, after ++ more) := by
  induction hlength : text.length using Nat.strong_induction_on generalizing text content with
  | _ length ih =>
    obtain ⟨rfl, rfl⟩ | ⟨escaped, meant, rest, content', rfl, hescape, hrest, rfl⟩ |
      ⟨byte, rest, content', rfl, hquote, hslash, hprinted, hrest, rfl⟩ := readChars_cases hread
    · exact readChars_quote _
    · obtain ⟨used, rfl, hpos, -, -, -, hmore⟩ := readEscape_eq hescape
      have hlater := ih rest.length (by simp at hlength; omega) hrest rfl
      rw [cons_append, readChars_escape (hmore more), hlater]
      rfl
    · have hlater := ih rest.length (by simp at hlength; omega) hrest rfl
      rw [cons_append, readChars_plain hquote hslash hprinted, hlater]
      rfl

end Chars

def IsUtf8 (text : Bytes) : Prop :=
  ∃ characters : List Char, text = characters.flatMap String.utf8EncodeChar

theorem isValidUTF8_iff (text : Bytes) : ByteArray.IsValidUTF8 text.toByteArray ↔ IsUtf8 text := by
  constructor
  · rintro ⟨characters, htext⟩
    refine ⟨characters, ?_⟩
    have hdata := congrArg (fun bytes ↦ bytes.data.toList) htext
    simpa [List.utf8Encode] using hdata
  · rintro ⟨characters, rfl⟩
    exact ⟨characters, rfl⟩

instance (text : Bytes) : Decidable (IsUtf8 text) := decidable_of_iff _ (isValidUTF8_iff text)

theorem isUtf8_of_ascii {text : Bytes} (hascii : ∀ byte ∈ text, byte < 0x80) : IsUtf8 text := by
  refine ⟨text.map fun byte ↦ Char.ofNat byte.toNat, ?_⟩
  induction text with
  | nil => rfl
  | cons byte text ih =>
    obtain ⟨hbyte, htext⟩ := forall_mem_cons.mp hascii
    have hsmall : byte.toNat < 128 := hbyte
    have hvalue : (Char.ofNat byte.toNat).val.toNat = byte.toNat := by
      rw [Char.ofNat, dif_pos (.inl (by omega))]
      rfl
    have hencode : String.utf8EncodeChar (Char.ofNat byte.toNat) = [byte] := by
      rw [String.utf8EncodeChar, hvalue, if_pos (by omega), UInt8.ofNat_toNat]
    rw [map_cons, flatMap_cons, hencode, ← ih htext]
    rfl

def readString (text : Bytes) : Option (Bytes × Bytes) :=
  (readChars text).filter fun (content, _) ↦ IsUtf8 content

def Clean (text : Bytes) : Prop := Plain text ∧ IsUtf8 text

instance (text : Bytes) : Decidable (Clean text) := inferInstanceAs (Decidable (_ ∧ _))

theorem readString_iff {text rest after : Bytes} :
    readString (text ++ quote :: rest) = some (text, after) ↔ Clean text ∧ after = rest := by
  rw [readString, filter_eq_some_iff]
  constructor
  · rintro ⟨hread, hutf⟩
    obtain ⟨hplain, hafter⟩ := plain_of_readChars hread
    exact ⟨⟨hplain, of_decide_eq_true hutf⟩, hafter⟩
  · rintro ⟨⟨hplain, hutf⟩, rfl⟩
    exact ⟨readChars_of_plain hplain after, decide_eq_true hutf⟩

theorem clean_of_ascii {text : Bytes} (hplain : Plain text) (hascii : ∀ byte ∈ text, byte < 0x80) :
    Clean text := ⟨hplain, isUtf8_of_ascii hascii⟩

theorem readString_append {text content after : Bytes} (hread : readString text = some (content, after))
    (more : Bytes) : readString (text ++ more) = some (content, after ++ more) := by
  rw [readString, filter_eq_some_iff] at hread
  rw [readString, readChars_append hread.1, filter_some, if_pos hread.2]

end DhcpServer.Library.JsonReading
