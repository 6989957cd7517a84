import DhcpServer.Web.JsonWriter
import DhcpServer.Web.SettingsImportScan

/-!
# Scans over JSON texts

`JsonWriter` escapes, `jsonGetStr` and `unknownSettingsKeys` look for the quote behind a string, and
`jsonFindArrayEnd` for the bracket behind an array. They agree on what an escape is.
-/

namespace DhcpServer.Web.JsonScans

open Library Json List Option
open JsonReading (opensArray closesArray hexValue isWordByte)
open JsonGrammar (IsChars Part Written)
open JsonText (Spaces)

inductive ScanState
  | code | string | escaped

/-- The text from the bracket that closes the array. No text of 32-bit length opens 2^31 arrays and closes
them, so the depth needs no bound. -/
def jsonFindArrayEnd (depth : Int) : ScanState → Bytes → Bytes
  | _, [] => []
  | .escaped, _ :: rest => jsonFindArrayEnd depth .string rest
  | .string, byte :: rest =>
    if byte = backslash then jsonFindArrayEnd depth .escaped rest
    else if byte = quote then jsonFindArrayEnd depth .code rest
    else jsonFindArrayEnd depth .string rest
  | .code, byte :: rest =>
    if byte = quote then jsonFindArrayEnd depth .string rest
    else if byte = opensArray then jsonFindArrayEnd (depth + 1) .code rest
    else if byte = closesArray then
      if depth - 1 = 0 then byte :: rest else jsonFindArrayEnd (depth - 1) .code rest
    else jsonFindArrayEnd depth .code rest

section Strings

variable {raw : Bytes}

theorem plain_of_hex {digits : Bytes} (hdigits : ∀ digit ∈ digits, (hexValue digit).isSome) :
    ∀ digit ∈ digits, digit ≠ quote ∧ digit ≠ backslash := by
  intro digit hdigit
  have hhex := hdigits digit hdigit
  constructor
  · rintro rfl
    exact absurd hhex (by decide)
  · rintro rfl
    exact absurd hhex (by decide)

theorem quoted_append {text : Bytes} (htext : ∀ byte ∈ text, byte ≠ quote ∧ byte ≠ backslash)
    (rest : Bytes) : quoted (text ++ rest) = (quoted rest).map (text ++ ·) := by
  induction text with
  | nil => simp
  | cons byte text ih =>
    obtain ⟨⟨hquote, hslash⟩, htail⟩ := forall_mem_cons.mp htext
    rw [cons_append, quoted_plain hquote hslash, ih htail, Option.map_map]
    rfl

theorem quoted_chars (hraw : IsChars raw) (rest : Bytes) : quoted (raw ++ quote :: rest) = some raw := by
  induction hraw with
  | nil => exact quoted_quote rest
  | plain byte hplain hrest ih =>
    rw [cons_append, quoted_plain hplain.2.1 hplain.2.2, ih, map_some]
  | escape letter hletter hrest ih =>
    refine (quoted_escape letter _).trans ?_
    rw [append_eq, ih, map_some]
    rfl
  | unicode digits hlength hdigits hrest ih =>
    rw [cons_append, cons_append, append_assoc]
    refine (quoted_escape 0x75 _).trans ?_
    rw [quoted_append (plain_of_hex hdigits), ih, map_some, map_some]
    rfl

theorem arrayEnd_append {text : Bytes} (htext : ∀ byte ∈ text, byte ≠ quote ∧ byte ≠ backslash) (depth : Int)
    (rest : Bytes) : jsonFindArrayEnd depth .string (text ++ rest) = jsonFindArrayEnd depth .string rest := by
  induction text with
  | nil => rfl
  | cons byte text ih =>
    obtain ⟨⟨hquote, hslash⟩, htail⟩ := forall_mem_cons.mp htext
    rw [cons_append, jsonFindArrayEnd, if_neg hslash, if_neg hquote, ih htail]

theorem arrayEnd_chars (hraw : IsChars raw) (depth : Int) (rest : Bytes) :
    jsonFindArrayEnd depth .string (raw ++ quote :: rest) = jsonFindArrayEnd depth .code rest := by
  induction hraw with
  | nil => rfl
  | plain byte hplain hrest ih =>
    have hbyte : byte ≠ quote ∧ byte ≠ backslash := hplain.2
    rw [cons_append, jsonFindArrayEnd, if_neg hbyte.2, if_neg hbyte.1, ih]
  | escape letter hletter hrest ih => exact ih
  | unicode digits hlength hdigits hrest ih =>
    rw [cons_append, cons_append, append_assoc]
    exact (arrayEnd_append (plain_of_hex hdigits) depth _).trans ih

end Strings

/-- Inside an array the scan comes through this text as deep as it went in. -/
def Passes (text : Bytes) : Prop :=
  ∀ (depth : Int) (rest : Bytes), 1 ≤ depth →
    jsonFindArrayEnd depth .code (text ++ rest) = jsonFindArrayEnd depth .code rest

namespace Passes

variable {text second : Bytes}

theorem append (hfirst : Passes text) (hsecond : Passes second) : Passes (text ++ second) := by
  intro depth rest hdepth
  rw [append_assoc, hfirst depth _ hdepth, hsecond depth rest hdepth]

theorem plain (htext : ∀ byte ∈ text, byte ≠ quote ∧ byte ≠ opensArray ∧ byte ≠ closesArray) :
    Passes text := by
  intro depth rest hdepth
  induction text with
  | nil => rfl
  | cons byte text ih =>
    obtain ⟨⟨hquote, hopens, hcloses⟩, htail⟩ := forall_mem_cons.mp htext
    rw [cons_append, jsonFindArrayEnd, if_neg hquote, if_neg hopens, if_neg hcloses, ih htail]

theorem one {byte : UInt8} (hbyte : byte ≠ quote ∧ byte ≠ opensArray ∧ byte ≠ closesArray)
    (hsecond : Passes second) : Passes (byte :: second) :=
  append (plain (by simpa using hbyte) : Passes [byte]) hsecond

theorem spaces (inner : Spaces) : Passes inner.val := by
  refine plain fun byte hbyte ↦ ?_
  have hspace := inner.property byte hbyte
  refine ⟨?_, ?_, ?_⟩
  all_goals
    rintro rfl
    exact absurd hspace (by decide)

theorem string {raw : Bytes} (hraw : IsChars raw) (hsecond : Passes second) :
    Passes (quote :: (raw ++ quote :: second)) := by
  intro depth rest hdepth
  rw [cons_append, append_assoc, cons_append, jsonFindArrayEnd, if_pos rfl,
    arrayEnd_chars hraw, hsecond depth rest hdepth]

theorem array (htext : Passes text) : Passes (opensArray :: (text ++ [closesArray])) := by
  intro depth rest hdepth
  have hnext : depth + 1 - 1 ≠ 0 := by omega
  rw [cons_append, append_assoc, jsonFindArrayEnd, if_neg (by decide), if_pos rfl,
    htext _ _ (by omega), cons_append, jsonFindArrayEnd, if_neg (by decide), if_neg (by decide),
    if_pos rfl, if_neg hnext, Int.add_sub_cancel, nil_append]

end Passes

theorem passes_of_written {part : Part} {text : Bytes} {names : List Bytes}
    (hwritten : Written part text names) : Passes text := by
  induction hwritten with
  | word hword =>
    refine .plain fun byte hbyte ↦ ?_
    have hletter := hword.1 byte hbyte
    refine ⟨?_, ?_, ?_⟩
    all_goals
      rintro rfl
      exact absurd hletter (by decide)
  | string hraw => exact .string hraw (.plain (by simp))
  | emptyArray inner => exact .array (.spaces inner)
  | array hitems ih => exact .array ih
  | emptyObject inner => exact .one (by decide) ((Passes.spaces inner).append (.plain (by decide +kernel)))
  | object hmembers ih => exact .one (by decide) (ih.append (.plain (by decide +kernel)))
  | item lead trail hvalue ih => exact (Passes.spaces lead).append (ih.append (.spaces trail))
  | lastItem hitem ih => exact ih
  | moreItems hitem hrest hfirst hsecond => exact hfirst.append (.one (by decide) hsecond)
  | member lead beforeColon hraw hitem ih =>
    exact (Passes.spaces lead).append
      (.string hraw ((Passes.spaces beforeColon).append (.one (by decide) ih)))
  | lastMember hmember ih => exact ih
  | moreMembers hmember hrest hfirst hsecond => exact hfirst.append (.one (by decide) hsecond)

theorem arrayEnd_array {text : Bytes} (htext : Passes text) (rest : Bytes) :
    jsonFindArrayEnd 0 .code (opensArray :: (text ++ [closesArray]) ++ rest) = closesArray :: rest := by
  rw [cons_append, append_assoc, jsonFindArrayEnd, if_neg (by decide), if_pos rfl, htext _ _ (by decide)]
  rfl

/-- An array of the grammar. -/
structure WrittenArray where
  inner : Bytes
  names : List Bytes
  written : Written .value (opensArray :: (inner ++ [closesArray])) names

theorem passes_inner {inner text : Bytes} {names : List Bytes} (hwritten : Written .value text names)
    (htext : opensArray :: (inner ++ [closesArray]) = text) : Passes inner := by
  cases hwritten with
  | word hword =>
    subst htext
    exact absurd (hword.1 opensArray (by simp)) (by decide)
  | string hraw => exact absurd (cons.inj htext).1 (by decide)
  | emptyArray spaces =>
    rw [append_cancel_right (cons.inj htext).2]
    exact .spaces spaces
  | array hitems =>
    rw [append_cancel_right (cons.inj htext).2]
    exact passes_of_written hitems
  | emptyObject spaces => exact absurd (cons.inj htext).1 (by decide)
  | object hmembers => exact absurd (cons.inj htext).1 (by decide)

theorem escape_scans (text front rest : Bytes) (array : WrittenArray) :
    ((∀ byte ∈ text, isKept byte = true) → unescape (escape text) = text) ∧
      (∀ before after, escape text = before ++ quote :: after → escaping before = true) ∧
      escaping (escape text) = false ∧
      (∀ byte ∈ escape text, kAsciiPrintableMin ≤ byte) ∧
      quoted (escape text ++ quote :: rest) = some (escape text) ∧
      SettingsImportScan.tokenEnd (front ++ quote :: (escape text ++ quote :: rest))
          ((front ++ quote :: (escape text ++ quote :: rest)).length + 1) (front.length + 1) =
        some (front.length + 1 + (escape text).length) ∧
      jsonFindArrayEnd 0 .code (opensArray :: (array.inner ++ [closesArray]) ++ rest) =
        closesArray :: rest := by
  refine ⟨unescape_of_escape, fun _ _ htext ↦ escaping_of_quote htext, escaping_escape text,
    fun byte hbyte ↦ ?_, quoted_chars (escape_isChars text) rest, ?_,
    arrayEnd_array (passes_inner array.written rfl) rest⟩
  · obtain ⟨source, -, hbyte⟩ := mem_flatMap.mp hbyte
    obtain ⟨-, hblock⟩ | ⟨⟨hprinted, -, -⟩, hblock⟩ | ⟨letter, hletter, -, hblock⟩ := escapeByte_cases source
    · simp [hblock] at hbyte
    · rw [hblock, mem_singleton] at hbyte
      exact hbyte ▸ hprinted
    · rw [hblock] at hbyte
      obtain rfl | rfl : byte = backslash ∨ byte = letter := by simpa using hbyte
      · decide
      · exact (by decide +kernel : ∀ letter ∈ JsonText.escapeLetters, kAsciiPrintableMin ≤ letter) byte
          hletter
  · have hdrop : (front ++ quote :: (escape text ++ quote :: rest)).drop (front.length + 1) =
        escape text ++ quote :: rest := Reads.drop_succ_of_drop drop_left
    refine SettingsImportScan.tokenEnd_chars (escape_isChars text) hdrop ?_
    simp only [length_append, length_cons]
    omega

end DhcpServer.Web.JsonScans
