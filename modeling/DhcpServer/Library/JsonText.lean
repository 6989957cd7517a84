import DhcpServer.Library.Bytes

/-!
# The text of JSON objects

Objects as they are written: white space, escapes and the order of the members are kept, so that a
reader that works on the text can be compared with what the text means. Every writer takes the text
that follows, and `locate` tells what follows a member in the text of its object.

A value no reader of typed fields looks into (`null`, an array, a number with a fraction) is the text
it is written as.
-/

namespace DhcpServer.Library.JsonText

open List

def isSpace (byte : UInt8) : Bool := byte = 0x20 || byte = 0x09 || byte = 0x0A || byte = 0x0D

abbrev Spaces := { text : Bytes // ∀ byte ∈ text, isSpace byte = true }

def noSpaces : Spaces := ⟨[], by simp⟩

def escapeLetters : Bytes := ascii "\"\\/bfnrt"

inductive Piece
  | plain (byte : UInt8) (unquoted : byte ≠ 0x22 ∧ byte ≠ 0x5C)
  | escape (letter : UInt8) (known : letter ∈ escapeLetters)
  /-- The digits of a `\u` escape or of a pair of them, and what they stand for. -/
  | unicode (digits meant : Bytes)

namespace Piece

def escaped (letter : UInt8) : UInt8 :=
  if letter = 0x62 then 0x08
  else if letter = 0x66 then 0x0C
  else if letter = 0x6E then 0x0A
  else if letter = 0x72 then 0x0D
  else if letter = 0x74 then 0x09
  else letter

def written : Piece → Bytes → Bytes
  | plain byte _, rest => byte :: rest
  | escape letter _, rest => 0x5C :: letter :: rest
  | unicode digits _, rest => 0x5C :: 0x75 :: (digits ++ rest)

def decoded : Piece → Bytes
  | plain byte _ => [byte]
  | escape letter _ => [escaped letter]
  | unicode _ meant => meant

def isUnicode : Piece → Bool
  | unicode _ _ => true
  | _ => false

end Piece

def piecesWritten : List Piece → Bytes → Bytes
  | [], rest => rest
  | piece :: pieces, rest => piece.written (piecesWritten pieces rest)

def decoded (pieces : List Piece) : Bytes := pieces.flatMap Piece.decoded

theorem piecesWritten_append (pieces : List Piece) (first second : Bytes) :
    piecesWritten pieces (first ++ second) = piecesWritten pieces first ++ second := by
  induction pieces with
  | nil => rfl
  | cons piece pieces ih =>
    rw [piecesWritten, piecesWritten, ih]
    cases piece <;> simp [Piece.written]

def plainPieces (text : Bytes) : List Piece :=
  text.filterMap fun byte ↦
    if hbyte : byte ≠ 0x22 ∧ byte ≠ 0x5C then some (.plain byte hbyte) else none

section Plain

variable {text : Bytes} (hplain : ∀ byte ∈ text, byte ≠ 0x22 ∧ byte ≠ 0x5C)

include hplain

theorem piecesWritten_plainPieces (rest : Bytes) :
    piecesWritten (plainPieces text) rest = text ++ rest := by
  induction text with
  | nil => rfl
  | cons byte text ih =>
    obtain ⟨hbyte, htext⟩ := forall_mem_cons.mp hplain
    have hpieces : plainPieces (byte :: text) = .plain byte hbyte :: plainPieces text := by
      simp [plainPieces, hbyte]
    rw [hpieces, piecesWritten, ih htext]
    rfl

end Plain

instance (priority := 2000) neZero_ten : @NeZero Nat Zero.ofOfNat0 10 := ⟨by decide⟩

def digitByte (digit : Fin 10) : UInt8 := UInt8.ofNat (0x30 + digit.val)

def digitsNumber (digits : List (Fin 10)) : Nat := digits.foldl (fun total digit ↦ total * 10 + digit.val) 0

inductive Token
  | flag (on : Bool)
  | number (negative : Bool) (leading : Fin 10) (digits : List (Fin 10))
  | text (pieces : List Piece)
  | other (raw : Bytes)

namespace Token

def written : Token → Bytes → Bytes
  | flag true, rest => ascii "true" ++ rest
  | flag false, rest => ascii "false" ++ rest
  | number true leading digits, rest => 0x2D :: ((leading :: digits).map digitByte ++ rest)
  | number false leading digits, rest => (leading :: digits).map digitByte ++ rest
  | text pieces, rest => 0x22 :: piecesWritten pieces (0x22 :: rest)
  | other raw, rest => raw ++ rest

def isOn : Token → Bool
  | flag on => on
  | _ => false

def toInt : Token → Int
  | number true leading digits => -(digitsNumber (leading :: digits))
  | number false leading digits => digitsNumber (leading :: digits)
  | _ => 0

def toText : Token → Bytes
  | text pieces => decoded pieces
  | _ => []

end Token

structure Member (α : Type) where
  lead : Spaces
  key : List Piece
  beforeColon : Spaces
  afterColon : Spaces
  value : α
  trail : Spaces

structure Object (α : Type) where
  /-- what stands between the braces when there is no member -/
  inner : Spaces
  members : List (Member α)

def Member.compact {α : Type} (key : Bytes) (value : α) : Member α where
  lead := noSpaces
  key := plainPieces key
  beforeColon := noSpaces
  afterColon := noSpaces
  value := value
  trail := noSpaces

def Object.compact {α : Type} (members : List (Member α)) : Object α where
  inner := noSpaces
  members := members

section Writing

variable {α : Type} (write : α → Bytes → Bytes)

def Member.assigned (member : Member α) (rest : Bytes) : Bytes :=
  0x3A :: (member.afterColon.val ++ write member.value (member.trail.val ++ rest))

def Member.written (member : Member α) (rest : Bytes) : Bytes :=
  member.lead.val ++ 0x22 :: piecesWritten member.key
    (0x22 :: (member.beforeColon.val ++ member.assigned write rest))

/-- What follows a member: the other members and the closing brace. -/
def following : List (Member α) → Bytes → Bytes
  | [], rest => 0x7D :: rest
  | member :: members, rest => 0x2C :: member.written write (following members rest)

namespace Object

def written (object : Object α) (rest : Bytes) : Bytes :=
  match object.members with
  | [] => 0x7B :: (object.inner.val ++ 0x7D :: rest)
  | member :: members => 0x7B :: member.written write (following write members rest)

end Object

/-- The first member with a key, and what follows it in the text. -/
def locateIn (name : Bytes) : List (Member α) → Bytes → Option (Member α × Bytes)
  | [], _ => none
  | member :: members, rest =>
    if decoded member.key = name then some (member, following write members rest)
    else locateIn name members rest

def Object.locate (object : Object α) (name rest : Bytes) : Option (Member α × Bytes) :=
  locateIn write name object.members rest

def Object.member? (object : Object α) (name : Bytes) : Option (Member α) :=
  object.members.find? fun member ↦ decoded member.key = name

theorem Object.map_locate (object : Object α) (name rest : Bytes) :
    (object.locate write name rest).map Prod.fst = object.member? name := by
  rw [Object.locate, Object.member?]
  induction object.members with
  | nil => rfl
  | cons member members ih =>
    rw [locateIn, find?_cons]
    by_cases hkey : decoded member.key = name
    · simp [hkey]
    · simpa [hkey] using ih

variable {write}

section Append

variable (happend : ∀ value first second, write value (first ++ second) = write value first ++ second)

include happend

theorem assigned_append (member : Member α) (first second : Bytes) :
    member.assigned write (first ++ second) = member.assigned write first ++ second := by
  rw [Member.assigned, ← append_assoc, happend, ← append_assoc, ← cons_append]
  rfl

theorem written_append (member : Member α) (first second : Bytes) :
    member.written write (first ++ second) = member.written write first ++ second := by
  rw [Member.written, assigned_append happend, ← append_assoc, ← cons_append,
    piecesWritten_append, ← cons_append, ← append_assoc]
  rfl

end Append

section Suffix

/- Every value is written in front of what follows it. -/
variable (hwrite : ∀ value rest, rest <:+ write value rest)

include hwrite

end Suffix

theorem Object.after_located {object : Object α} {name rest after : Bytes} {member : Member α}
    (hlocate : object.locate write name rest = some (member, after)) :
    ∃ byte text, after = byte :: text ∧ (byte = 0x2C ∨ byte = 0x7D) := by
  rw [Object.locate] at hlocate
  generalize object.members = members at hlocate
  induction members with
  | nil => cases hlocate
  | cons first members ih =>
    rw [locateIn] at hlocate
    split at hlocate
    · cases hlocate
      cases members with
      | nil => exact ⟨0x7D, rest, rfl, .inr rfl⟩
      | cons second members => exact ⟨0x2C, _, rfl, .inl rfl⟩
    · exact ih hlocate

end Writing

section Arrays

variable {α : Type} (write : α → Bytes → Bytes)

def itemsAfter : List α → Bytes → Bytes
  | [], rest => rest
  | item :: items, rest => 0x2C :: write item (itemsAfter items rest)

def arrayWritten : List α → Bytes → Bytes
  | [], rest => 0x5B :: 0x5D :: rest
  | item :: items, rest => 0x5B :: write item (itemsAfter write items (0x5D :: rest))

variable {write}

theorem itemsAfter_append
    (happend : ∀ value first second, write value (first ++ second) = write value first ++ second)
    (items : List α) (first second : Bytes) :
    itemsAfter write items (first ++ second) = itemsAfter write items first ++ second := by
  induction items with
  | nil => rfl
  | cons item items ih => rw [itemsAfter, ih, happend, itemsAfter, cons_append]

end Arrays

theorem Token.written_append (token : Token) (first second : Bytes) :
    token.written (first ++ second) = token.written first ++ second := by
  cases token with
  | flag on => cases on <;> simp [Token.written]
  | number negative leading digits => cases negative <;> simp [Token.written]
  | text pieces =>
    simp only [Token.written, ← cons_append, piecesWritten_append]
  | other raw => simp [Token.written]

end DhcpServer.Library.JsonText
