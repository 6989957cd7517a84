import DhcpServer.Library.JsonText
import DhcpServer.Web.Json

/-!
# What the JSON helpers make of a value

The getters work on the text from the value on, which goes to the end of the body. On the text of a
flag, a number or a string they stop at the end of the value, whatever follows it. They skip only
blanks after the colon, an `int` has only the values of 32 bits, and no `\u` escape is decoded.
-/

namespace DhcpServer.Web.Json

open Library JsonText List

/-- The first `mark` after the first place of a quoted name. -/
def reached (name : Bytes) (mark : UInt8) (text : Bytes) : Option Bytes :=
  (find (quote :: name ++ [quote]) text).bind (find [mark])

theorem valueOf_eq (json key : Bytes) : valueOf json key =
      (reached key colon json).map fun assigned ↦ (assigned.drop 1).dropWhile (· == blank) := by
  rw [valueOf, reached]
  cases find (quote :: key ++ [quote]) json with
  | none => rfl
  | some named => cases hcolon : find [colon] named <;> simp [hcolon]

theorem quoted_written {pieces : List Piece} (hplain : ∀ piece ∈ pieces, piece.isUnicode = false)
    (rest : Bytes) :
    quoted (piecesWritten pieces (quote :: rest)) = some (piecesWritten pieces []) := by
  induction pieces with
  | nil => exact quoted_quote rest
  | cons piece pieces ih =>
    have hrest := ih fun piece hpiece ↦ hplain piece (mem_cons_of_mem _ hpiece)
    have hfirst := hplain piece mem_cons_self
    cases piece with
    | plain byte unquoted =>
      have hbyte := quoted_plain unquoted.1 unquoted.2 (piecesWritten pieces (quote :: rest))
      rw [hrest] at hbyte
      exact hbyte
    | escape letter known =>
      have hletter := quoted_escape letter (piecesWritten pieces (quote :: rest))
      rw [hrest] at hletter
      exact hletter
    | unicode digits meant => cases hfirst

theorem unescape_written {pieces : List Piece} (hplain : ∀ piece ∈ pieces, piece.isUnicode = false) :
    unescape (piecesWritten pieces []) = decoded pieces := by
  induction pieces with
  | nil => rfl
  | cons piece pieces ih =>
    have hrest := ih fun piece hpiece ↦ hplain piece (mem_cons_of_mem _ hpiece)
    have hfirst := hplain piece mem_cons_self
    cases piece with
    | plain byte unquoted =>
      have hbyte := unescape_plain unquoted.2 (piecesWritten pieces [])
      rw [hrest] at hbyte
      exact hbyte
    | escape letter known =>
      have hmeant : unescaped letter = Piece.escaped letter := by
        simp only [unescaped, Piece.escaped]
        grind
      have hletter := unescape_escape letter (piecesWritten pieces [])
      rw [hrest, hmeant] at hletter
      exact hletter
    | unicode digits meant => cases hfirst

theorem isDigit_digitByte (digit : Fin 10) : isDigit (digitByte digit) := by
  revert digit
  decide

theorem digitsValue_written (digits : List (Fin 10)) {rest : Bytes}
    (hrest : ∀ byte ∈ rest.head?, isDigit byte = false) :
    digitsValue (digits.map digitByte ++ rest) = digitsNumber digits := by
  have hdigits : ∀ byte ∈ digits.map digitByte, isDigit byte := by
    intro byte hbyte
    obtain ⟨digit, -, rfl⟩ := mem_map.mp hbyte
    exact isDigit_digitByte digit
  have hrun : (digits.map digitByte ++ rest).takeWhile isDigit = digits.map digitByte := by
    rw [takeWhile_append_of_pos hdigits]
    cases rest with
    | nil => simp
    | cons byte rest => simp [hrest byte rfl]
  have hdigit (digit : Fin 10) : (digitByte digit).toNat - 0x30 = digit.val := by
    revert digit
    decide
  rw [digitsValue, hrun, digitsNumber, foldl_map]
  simp only [hdigit]

/-- Numbers an `int` holds. -/
def isInt32 (number : Int) : Bool := -2147483648 ≤ number && number ≤ 2147483647

theorem dropWhile_spaces (spaces : Spaces) (text : Bytes) :
    ((spaces.val ++ text).dropWhile (· == blank)).dropWhile isSpace = text.dropWhile isSpace := by
  have hblank : isSpace blank := by decide
  have hskip (bytes : Bytes) :
      (bytes.dropWhile (· == blank)).dropWhile isSpace = bytes.dropWhile isSpace := by
    induction bytes with
    | nil => rfl
    | cons byte bytes ih =>
      by_cases hbyte : byte = blank
      · simp [hbyte, hblank, ih]
      · simp [hbyte]
  have hspaces : ∀ byte ∈ spaces.val, isSpace byte := by
    intro byte hbyte
    have hspace := spaces.property byte hbyte
    simp only [JsonText.isSpace, Bool.or_eq_true, decide_eq_true_eq] at hspace
    rcases hspace with ((rfl | rfl) | rfl) | rfl <;> decide
  rw [hskip, dropWhile_append_of_pos hspaces]

theorem atoi_written {negative : Bool} {leading : Fin 10} {digits : List (Fin 10)} {rest : Bytes}
    (spaces : Spaces) (hrange : isInt32 (Token.number negative leading digits).toInt)
    (hrest : ∀ byte ∈ rest.head?, isDigit byte = false) :
    atoi ((spaces.val ++ (Token.number negative leading digits).written rest).dropWhile
      (· == blank)) = (Token.number negative leading digits).toInt := by
  have hvalue := digitsValue_written (leading :: digits) hrest
  simp only [isInt32, Bool.and_eq_true, decide_eq_true_eq] at hrange
  obtain ⟨hlow, hhigh⟩ := hrange
  rw [atoi, dropWhile_spaces]
  cases negative with
  | true =>
    have hsign : ((Token.number true leading digits).written rest).dropWhile isSpace =
        0x2D :: ((leading :: digits).map digitByte ++ rest) := rfl
    simp only [hsign, ↓reduceIte, hvalue]
    simp only [Token.toInt] at hlow ⊢
    exact Int.max_eq_right hlow
  | false =>
    have hleading : isSpace (digitByte leading) = false ∧ digitByte leading ≠ 0x2D ∧
        digitByte leading ≠ 0x2B := by
      clear * -
      revert leading
      decide
    have hfirst : ((Token.number false leading digits).written rest).dropWhile isSpace =
        digitByte leading :: (digits.map digitByte ++ rest) := by
      simp [Token.written, hleading.1]
    simp only [hfirst, if_neg hleading.2.1, if_neg hleading.2.2]
    rw [map_cons, cons_append] at hvalue
    rw [hvalue]
    simp only [Token.toInt] at hhigh ⊢
    exact Int.min_eq_right hhigh

theorem valueOf_assigned {json key : Bytes} {member : Member Token} {after : Bytes}
    (hreached : reached key colon json = some (member.assigned Token.written after)) :
    valueOf json key = some ((member.afterColon.val ++
      member.value.written (member.trail.val ++ after)).dropWhile (· == blank)) := by
  rw [valueOf_eq, hreached]
  rfl

def onlyBlanks (spaces : Spaces) : Bool := spaces.val.all (· == blank)

theorem dropWhile_onlyBlanks {spaces : Spaces} (hblanks : onlyBlanks spaces) {byte : UInt8}
    (hbyte : byte ≠ blank) (text : Bytes) :
    (spaces.val ++ byte :: text).dropWhile (· == blank) = byte :: text := by
  rw [dropWhile_append_of_pos (all_eq_true.mp hblanks)]
  simp [hbyte]

section Reached

variable {json key : Bytes} {member : Member Token} {after : Bytes}
  (hreached : reached key colon json = some (member.assigned Token.written after))

include hreached

theorem jsonGetBool_of_reached {on : Bool} (hvalue : member.value = .flag on)
    (hblanks : onlyBlanks member.afterColon) (default : Bool) :
    jsonGetBool json key default = on := by
  have htext := valueOf_assigned hreached
  rw [hvalue] at htext
  rw [jsonGetBool, htext]
  cases on with
  | true =>
    have htrue := dropWhile_onlyBlanks hblanks (by decide : (0x74 : UInt8) ≠ blank)
      (ascii "rue" ++ (member.trail.val ++ after))
    change (_ ++ (Token.flag true).written _).dropWhile _ = _ at htrue
    rw [htrue]
    rfl
  | false =>
    have hfalse := dropWhile_onlyBlanks hblanks (by decide : (0x66 : UInt8) ≠ blank)
      (ascii "alse" ++ (member.trail.val ++ after))
    change (_ ++ (Token.flag false).written _).dropWhile _ = _ at hfalse
    rw [hfalse]
    rfl

theorem jsonGetStr_of_reached {pieces : List Piece} (hvalue : member.value = .text pieces)
    (hblanks : onlyBlanks member.afterColon)
    (hplain : ∀ piece ∈ pieces, piece.isUnicode = false) :
    jsonGetStr json key = decoded pieces := by
  have htext := valueOf_assigned hreached
  have hquote := dropWhile_onlyBlanks hblanks (by decide : quote ≠ blank)
    (piecesWritten pieces (quote :: (member.trail.val ++ after)))
  rw [hvalue] at htext
  change (_ ++ (Token.text pieces).written _).dropWhile _ = _ at hquote
  rw [jsonGetStr, htext, hquote]
  simp [quoted_written hplain, unescape_written hplain]

theorem jsonGetInt_of_reached {negative : Bool} {leading : Fin 10} {digits : List (Fin 10)}
    (hvalue : member.value = .number negative leading digits)
    (hrange : isInt32 member.value.toInt)
    (hafter : ∀ byte ∈ after.head?, isDigit byte = false) (default : Int) :
    jsonGetInt json key default = member.value.toInt := by
  have htext := valueOf_assigned hreached
  have hrest : ∀ byte ∈ (member.trail.val ++ after).head?, isDigit byte = false := by
    cases htrail : member.trail.val with
    | nil => exact hafter
    | cons first trail =>
      intro byte hbyte
      cases hbyte
      have hspace := member.trail.property first (by simp [htrail])
      simp only [JsonText.isSpace, Bool.or_eq_true, decide_eq_true_eq] at hspace
      rcases hspace with ((rfl | rfl) | rfl) | rfl <;> decide
  rw [hvalue] at htext hrange ⊢
  have hatoi := atoi_written member.afterColon hrange hrest
  have hleading : digitByte leading ≠ blank := by
    clear * -
    revert leading
    decide
  have hsome : digitByte leading ∈ (Token.number negative leading digits).written
      (member.trail.val ++ after) := by
    cases negative <;> simp [Token.written]
  rw [jsonGetInt, htext]
  cases hdropped : (member.afterColon.val ++ (Token.number negative leading digits).written
      (member.trail.val ++ after)).dropWhile (· == blank) with
  | nil =>
    have hall := dropWhile_eq_nil_iff.mp hdropped _ (mem_append_right _ hsome)
    exact absurd (eq_of_beq hall) hleading
  | cons byte text =>
    rw [hdropped] at hatoi
    exact hatoi

end Reached

end DhcpServer.Web.Json
