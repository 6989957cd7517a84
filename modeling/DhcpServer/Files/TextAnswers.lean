import DhcpServer.Files.FileRequests
import DhcpServer.Library.JsonSpelling
import DhcpServer.Web.ListBodies

/-!
# The answer with a text

`FileJson::text` through `JsonWriter`, and what the page keeps of it. The writer drops the control characters
it has no escape for, so the text that arrives is the kept part of the one that was read.
-/

namespace DhcpServer.Web

open Library JsonReading List

namespace JsonWriter

def separate (body : Bytes) : Bytes := if body.isEmpty then body else body ++ [comma]

def str (body key value : Bytes) : Bytes :=
  separate body ++ quote :: (Json.escape key ++ quote :: colon :: quote :: (Json.escape value ++ [quote]))

def num (body key : Bytes) (value : Int) : Bytes :=
  separate body ++ quote :: (Json.escape key ++ quote :: colon :: Json.intText value)

def boolean (body key : Bytes) (value : Bool) : Bytes :=
  separate body ++
    quote :: (Json.escape key ++ quote :: colon :: if value then ascii "true" else ascii "false")

def toString (body : Bytes) : Bytes := opensObject :: (body ++ [closesObject])

end JsonWriter

namespace Json

def kept (text : Bytes) : Bytes := text.filter isKept

variable {text : Bytes}

theorem kept_eq_self_iff : kept text = text ↔ ∀ byte ∈ text, isKept byte := filter_eq_self

theorem kept_of_printed (hprinted : ∀ byte ∈ text, 0x20 ≤ byte) : kept text = text := by
  refine kept_eq_self_iff.mpr fun byte hbyte ↦ ?_
  have hlarge : kAsciiPrintableMin ≤ byte := hprinted byte hbyte
  simp [isKept, hlarge]

theorem isUtf8_kept (htext : IsUtf8 text) : IsUtf8 (kept text) := by
  obtain ⟨characters, rfl⟩ := htext
  induction characters with
  | nil => exact ⟨[], rfl⟩
  | cons character characters ih =>
    obtain ⟨others, hothers⟩ := ih
    have hsplit : kept ((character :: characters).flatMap String.utf8EncodeChar) =
        kept (String.utf8EncodeChar character) ++ others.flatMap String.utf8EncodeChar := by
      rw [flatMap_cons, kept, filter_append, ← hothers]
      rfl
    rw [hsplit]
    by_cases hascii : character.val.toNat < 128
    · have hone := JsonText.utf8EncodeChar_ascii hascii
      rw [hone, kept, filter_singleton]
      cases isKept (UInt8.ofNat character.val.toNat) with
      | true => exact ⟨character :: others, by rw [flatMap_cons, hone]; rfl⟩
      | false => exact ⟨others, rfl⟩
    · have hall : kept (String.utf8EncodeChar character) = String.utf8EncodeChar character :=
        kept_of_printed fun byte hbyte ↦
          UInt8.le_trans (by decide) (JsonText.high_of_mem_utf8 (not_lt.mp hascii) hbyte)
      rw [hall]
      exact ⟨character :: others, flatMap_cons.symm⟩

theorem readChars_escapeByte (byte : UInt8) (rest : Bytes) : readChars (escapeByte byte ++ rest) =
      (readChars rest).map fun (content, after) ↦ (kept [byte] ++ content, after) := by
  have hescape (letter : UInt8) (hletter : letter ≠ 0x75 ∧ letter ∈ JsonText.escapeLetters)
      (hmeant : kept [byte] = [JsonText.Piece.escaped letter]) :
      readChars (backslash :: letter :: rest) =
        (readChars rest).map fun (content, after) ↦ (kept [byte] ++ content, after) := by
    have hread : readEscape (letter :: rest) = some ([JsonText.Piece.escaped letter], rest) := by
      rw [readEscape, if_neg hletter.1, if_pos hletter.2]
    rw [hmeant]
    exact readChars_escape hread
  rw [escapeByte]
  split_ifs with hquote hslash hnewline hreturn htab hcontrol
  · subst hquote
    exact hescape _ (by decide) rfl
  · subst hslash
    exact hescape _ (by decide) rfl
  · subst hnewline
    exact hescape 0x6E (by decide) rfl
  · subst hreturn
    exact hescape 0x72 (by decide) rfl
  · subst htab
    exact hescape 0x74 (by decide) rfl
  · have hdropped : kept [byte] = [] := by
      have hsmall : ¬kAsciiPrintableMin ≤ byte := UInt8.not_le.mpr hcontrol
      simp [kept, isKept, hsmall, hnewline, hreturn, htab]
    rw [hdropped]
    simp
  · have hprinted : kAsciiPrintableMin ≤ byte := UInt8.not_lt.mp hcontrol
    have hkept : kept [byte] = [byte] := kept_of_printed (forall_mem_singleton.mpr hprinted)
    rw [hkept]
    exact readChars_plain hquote hslash hprinted rest

theorem readString_escape (text rest : Bytes) (hutf : IsUtf8 (kept text)) :
    readString (escape text ++ quote :: rest) = some (kept text, rest) := by
  have hchars : readChars (escape text ++ quote :: rest) = some (kept text, rest) := by
    clear hutf
    induction text with
    | nil => exact readChars_quote rest
    | cons byte text ih =>
      have hescape : escape (byte :: text) = escapeByte byte ++ escape text := flatMap_cons
      have hkept : kept (byte :: text) = kept [byte] ++ kept text := by
        rw [kept, ← singleton_append, filter_append]
        rfl
      rw [hescape, hkept, append_assoc, readChars_escapeByte, ih]
      rfl
  rw [readString, hchars, Option.filter_some, if_pos (decide_eq_true hutf)]

theorem printed_escape (text : Bytes) : ∀ byte ∈ escape text, (0x20 : UInt8) ≤ byte := by
  intro byte hbyte
  obtain ⟨source, -, hwritten⟩ := mem_flatMap.mp hbyte
  rw [escapeByte] at hwritten
  split_ifs at hwritten with _ _ _ _ _ hcontrol
  case neg =>
    rw [mem_singleton.mp hwritten]
    exact UInt8.not_lt.mp hcontrol
  all_goals
    simp only [mem_cons, not_mem_nil, or_false] at hwritten
  all_goals
    rcases hwritten with rfl | rfl <;> decide

end Json

namespace Field

def escaped (key : String) (content : Bytes) : Field :=
  ⟨ascii key, quote :: (Json.escape content ++ [quote]), .text (Json.kept content),
    IsUtf8 (Json.kept content)⟩

theorem readsAs_escaped (content : Bytes) (hutf : IsUtf8 (Json.kept content)) :
    ReadsAs (quote :: (Json.escape content ++ [quote])) (.text (Json.kept content))
      (IsUtf8 (Json.kept content)) where
  starts := ⟨_, _, rfl, by decide, by decide⟩
  printed _ := forall_mem_cons.mpr
    ⟨by decide, printed_append (Json.printed_escape content) (forall_mem_singleton.mpr (by decide))⟩
  reads fuel hfuel rest _ after := by
    obtain ⟨fuel, rfl, -⟩ := exists_fuel rfl hfuel
    have hskip := skip_cons quote (by decide) (Json.escape content ++ quote :: rest)
    have hread : readString (Json.escape content ++ quote :: rest) = some (Json.kept content, rest) :=
      Json.readString_escape content rest hutf
    rw [cons_append, append_assoc, singleton_append, readValue, hskip]
    simp only [if_pos, hread, Option.map_some, Option.some.injEq, Prod.mk.injEq, true_and, hutf, eq_comm]

theorem sound_escaped {key : String} (hkey : IsKey key) {content : Bytes}
    (hutf : IsUtf8 (Json.kept content)) : (escaped key content).Sound :=
  ⟨clean_of_isKey hkey, readsAs_escaped content hutf⟩

end Field

end DhcpServer.Web

namespace DhcpServer.Files

open Library JsonReading Web
open Storage.PathUtil (normalize)

def toInt64 (number : Nat) : Int := Int.bmod number 0x10000000000000000

theorem toInt64_eq {number : Nat} (hsmall : number < 2 ^ 63) : toInt64 number = number := by
  unfold toInt64
  apply Int.bmod_eq_of_le
  · omega
  · omega

def FileJson.text (payload : TextPayload) : Bytes :=
  let w := JsonWriter.str [] (ascii "volume") payload.volume
  let w := JsonWriter.str w (ascii "path") payload.path
  let w := JsonWriter.num w (ascii "size") (toInt64 payload.size)
  let w := JsonWriter.num w (ascii "mtime") (toInt64 payload.mtime)
  let w := JsonWriter.boolean w (ascii "truncated") false
  let w := JsonWriter.str w (ascii "text") payload.text
  JsonWriter.toString w

/-- What the page keeps of an answer: the path, the digits of the modification time, and the text. -/
structure Opened where
  path : Bytes
  mtime : Bytes
  text : Bytes

/-- `resp.json()` and `showEditorFile` -/
def showEditorFile (answer : Bytes) : Option Opened :=
  match parse answer with
  | some (.object members) =>
    match members.lookup (ascii "path"), members.lookup (ascii "mtime"), members.lookup (ascii "text") with
    | some (.text path), some (.number mtime), some (.text text) => some ⟨path, mtime, text⟩
    | _, _, _ => none
  | _ => none

def answerFields (payload : TextPayload) : List Field :=
  [.escaped "volume" payload.volume, .escaped "path" payload.path, .count "size" payload.size,
    .count "mtime" payload.mtime, .flag "truncated" false, .escaped "text" payload.text]

theorem FileJson.text_eq {payload : TextPayload} (hsize : payload.size < 2 ^ 63)
    (hmtime : payload.mtime < 2 ^ 63) :
    FileJson.text payload = objectText Field.key Field.written (answerFields payload) := by
  have hkeys : Json.escape (ascii "volume") = ascii "volume" ∧ Json.escape (ascii "path") = ascii "path" ∧
      Json.escape (ascii "size") = ascii "size" ∧ Json.escape (ascii "mtime") = ascii "mtime" ∧
      Json.escape (ascii "truncated") = ascii "truncated" ∧ Json.escape (ascii "text") = ascii "text" := by
    decide
  obtain ⟨hvolume, hpath, hsizeKey, hmtimeKey, htruncated, htext⟩ := hkeys
  simp [FileJson.text, JsonWriter.str, JsonWriter.num, JsonWriter.boolean, JsonWriter.toString,
    JsonWriter.separate, hvolume, hpath, hsizeKey, hmtimeKey, htruncated, htext, toInt64_eq hsize,
    toInt64_eq hmtime, objectText, answerFields, Field.escaped, Field.count, Field.flag, JsonReading.joined,
    memberText, List.intercalate]

theorem showEditorFile_text {payload : TextPayload} (hvolume : IsUtf8 payload.volume)
    (hpath : IsUtf8 payload.path) (htext : IsUtf8 payload.text) (hsize : payload.size < 2 ^ 63)
    (hmtime : payload.mtime < 2 ^ 63) :
    showEditorFile (cString (FileJson.text payload)) =
      some ⟨Json.kept payload.path, Json.intText payload.mtime, Json.kept payload.text⟩ := by
  have hfields : ∀ field ∈ answerFields payload, field.Sound := by
    simp only [answerFields, List.forall_mem_cons]
    exact ⟨Field.sound_escaped (by decide) (Json.isUtf8_kept hvolume),
      Field.sound_escaped (by decide) (Json.isUtf8_kept hpath), Field.sound_count (by decide) _,
      Field.sound_count (by decide) _, Field.sound_flag (by decide) _,
      Field.sound_escaped (by decide) (Json.isUtf8_kept htext), by simp⟩
  have hconditions : ∀ field ∈ answerFields payload, field.condition := by
    simp only [answerFields, List.forall_mem_cons]
    exact ⟨Json.isUtf8_kept hvolume, Json.isUtf8_kept hpath, trivial, trivial, trivial,
      Json.isUtf8_kept htext, by simp⟩
  have hparse : parse (cString (FileJson.text payload)) =
      some (Field.objectDocument (answerFields payload)) := by
    rw [FileJson.text_eq hsize hmtime]
    exact (Field.readsAs_fields hfields).parse_cString_iff.mpr hconditions
  rw [showEditorFile, hparse]
  rfl

end DhcpServer.Files
