import DhcpServer.Library.JsonGrammar
import DhcpServer.Web.QuotedNames

/-!
# What the REST API writes

`JsonWriter::escape` writes a text in pieces: an escape for a quote, a backslash and three control
characters, nothing for the other control characters, and the byte itself for the rest. What the
helpers write for a value is the text of a token.
-/

namespace DhcpServer.Web.Json

open Library JsonText List

def kAsciiPrintableMin : UInt8 := 0x20

def escapeByte (byte : UInt8) : Bytes :=
  if byte = quote then [backslash, quote]
  else if byte = backslash then [backslash, backslash]
  else if byte = 0x0A then [backslash, 0x6E]
  else if byte = 0x0D then [backslash, 0x72]
  else if byte = 0x09 then [backslash, 0x74]
  else if byte < kAsciiPrintableMin then []
  else [byte]

def escape (text : Bytes) : Bytes := text.flatMap escapeByte

/-- A byte that `escape` does not drop. -/
def isKept (byte : UInt8) : Bool := kAsciiPrintableMin ≤ byte || byte = 0x0A || byte = 0x0D || byte = 0x09

def decimalDigits (value : Nat) : List (Fin 10) :=
  if value < 10 then [Fin.ofNat 10 value]
  else decimalDigits (value / 10) ++ [Fin.ofNat 10 value]
termination_by value

def intText (value : Int) : Bytes :=
  if value < 0 then 0x2D :: (decimalDigits value.natAbs).map digitByte
  else (decimalDigits value.natAbs).map digitByte

def comma (first : Bool) : Bytes := if first then [] else [0x2C]

def addJsonString (json key value : Bytes) (first : Bool) : Bytes :=
  json ++ comma first ++ needle key ++ [colon, quote] ++ escape value ++ [quote]

def addJsonBool (json key : Bytes) (value first : Bool) : Bytes :=
  json ++ comma first ++ needle key ++ [colon] ++ if value then ascii "true" else ascii "false"

def addJsonInt (json key : Bytes) (value : Int) (first : Bool) : Bytes :=
  json ++ comma first ++ needle key ++ [colon] ++ intText value

/-- Behind this text stands the letter of an escape. -/
def escaping (text : Bytes) : Bool := text.foldl (fun waiting byte ↦ !waiting && byte == backslash) false

theorem escaping_append {used : Bytes} (hused : escaping used = false) (text : Bytes) :
    escaping (used ++ text) = escaping text := by
  rw [escaping] at hused
  rw [escaping, escaping, foldl_append, hused]

theorem escapeByte_cases (byte : UInt8) : isKept byte = false ∧ escapeByte byte = [] ∨
      (0x20 ≤ byte ∧ byte ≠ quote ∧ byte ≠ backslash) ∧ escapeByte byte = [byte] ∨
      ∃ letter ∈ escapeLetters, unescaped letter = byte ∧ escapeByte byte = [backslash, letter] := by
  rw [escapeByte]
  split_ifs with hquote hslash hnewline hreturn htab hcontrol
  · exact .inr (.inr ⟨0x22, by decide, hquote.symm, rfl⟩)
  · exact .inr (.inr ⟨0x5C, by decide, hslash.symm, rfl⟩)
  · exact .inr (.inr ⟨0x6E, by decide, hnewline.symm, rfl⟩)
  · exact .inr (.inr ⟨0x72, by decide, hreturn.symm, rfl⟩)
  · exact .inr (.inr ⟨0x74, by decide, htab.symm, rfl⟩)
  · have hsmall : ¬ kAsciiPrintableMin ≤ byte := UInt8.not_le.mpr hcontrol
    exact .inl ⟨by simp [isKept, hsmall, hnewline, hreturn, htab], rfl⟩
  · exact .inr (.inl ⟨⟨UInt8.not_lt.mp hcontrol, hquote, hslash⟩, rfl⟩)

theorem escape_cons (byte : UInt8) (text : Bytes) : escape (byte :: text) = escapeByte byte ++ escape text :=
  flatMap_cons

theorem escape_isChars (text : Bytes) : JsonGrammar.IsChars (escape text) := by
  induction text with
  | nil => exact .nil
  | cons byte text ih =>
    rw [escape_cons]
    obtain ⟨-, hbyte⟩ | ⟨hplain, hbyte⟩ | ⟨letter, hletter, -, hbyte⟩ := escapeByte_cases byte
    · rwa [hbyte]
    · rw [hbyte]
      exact .plain byte hplain ih
    · rw [hbyte]
      exact .escape letter hletter ih

theorem unescape_of_escape {text : Bytes} (hkept : ∀ byte ∈ text, isKept byte) :
    unescape (escape text) = text := by
  induction text with
  | nil => rfl
  | cons byte text ih =>
    obtain ⟨hfirst, htext⟩ := forall_mem_cons.mp hkept
    rw [escape_cons]
    obtain ⟨hdropped, -⟩ | ⟨hplain, hbyte⟩ | ⟨letter, -, hmeant, hbyte⟩ := escapeByte_cases byte
    · rw [hfirst] at hdropped
      cases hdropped
    · rw [hbyte, singleton_append, unescape_plain hplain.2.2, ih htext]
    · rw [hbyte, cons_append, singleton_append, unescape_escape, hmeant, ih htext]

theorem escaping_escape (text : Bytes) : escaping (escape text) = false := by
  induction text with
  | nil => rfl
  | cons byte text ih =>
    have hblock : escaping (escapeByte byte) = false := by
      obtain ⟨-, hbyte⟩ | ⟨⟨-, -, hslash⟩, hbyte⟩ | ⟨letter, -, -, hbyte⟩ := escapeByte_cases byte
      · rw [hbyte]
        rfl
      · simp [hbyte, escaping, hslash]
      · rw [hbyte]
        rfl
    rw [escape_cons, escaping_append hblock, ih]

/-- No quote in an escaped text ends it. -/
theorem escaping_of_quote {text before after : Bytes} (htext : escape text = before ++ quote :: after) :
    escaping before := by
  induction text generalizing before with
  | nil => exact absurd htext (by simp [escape])
  | cons byte text ih =>
    rw [escape_cons] at htext
    obtain ⟨-, hbyte⟩ | ⟨⟨-, hquote, hslash⟩, hbyte⟩ | ⟨letter, -, -, hbyte⟩ := escapeByte_cases byte
    · rw [hbyte] at htext
      exact ih htext
    · rw [hbyte] at htext
      cases before with
      | nil => exact absurd (cons.inj htext).1 hquote
      | cons first before =>
        obtain ⟨rfl, hrest⟩ := cons.inj htext
        have hfirst : escaping [byte] = false := by simp [escaping, hslash]
        exact (escaping_append hfirst before).trans (ih hrest)
    · rw [hbyte] at htext
      match before, htext with
      | [], htext => exact absurd (cons.inj htext).1 (by decide)
      | [first], htext =>
        obtain ⟨rfl, -⟩ := cons.inj htext
        rfl
      | first :: second :: before, htext =>
        obtain ⟨rfl, hrest⟩ := cons.inj htext
        have hpair : escaping [backslash, second] = false := rfl
        exact (escaping_append hpair before).trans (ih (cons.inj hrest).2)

theorem exists_decimalDigits (value : Nat) : ∃ leading digits,
    decimalDigits value = leading :: digits ∧ digitsNumber (leading :: digits) = value := by
  induction value using decimalDigits.induct with
  | case1 value hsmall =>
    rw [decimalDigits, if_pos hsmall]
    exact ⟨_, [], rfl, by simp [digitsNumber, Nat.mod_eq_of_lt hsmall]⟩
  | case2 value hlarge ih =>
    obtain ⟨leading, digits, hdigits, hvalue⟩ := ih
    rw [decimalDigits, if_neg hlarge, hdigits]
    refine ⟨leading, digits ++ [Fin.ofNat 10 value], rfl, ?_⟩
    rw [digitsNumber] at hvalue
    rw [digitsNumber, ← cons_append, foldl_append, hvalue]
    simp only [foldl_cons, foldl_nil, Fin.val_ofNat]
    omega

end DhcpServer.Web.Json
