import DhcpServer.Library.Bytes

/-!
# The JSON helpers of the REST API

`jsonGetStr`, `jsonGetBool` and `jsonGetInt` look for a quoted key anywhere in the text and take
what follows the next colon. They are no parser, and what they find is all a handler knows of a
body.
-/

namespace DhcpServer.Web.Json

open Library

def quote : UInt8 := 0x22
def colon : UInt8 := 0x3A
def blank : UInt8 := 0x20
def backslash : UInt8 := 0x5C

/-- `string::find`: the text from the first place where `needle` stands. -/
def find (needle : Bytes) : Bytes → Option Bytes
  | [] => if needle.isEmpty then some [] else none
  | byte :: rest =>
    if needle.isPrefixOf (byte :: rest) then some (byte :: rest) else find needle rest

/-- What follows a key, its colon and the blanks after it. -/
def valueOf (json key : Bytes) : Option Bytes := do
  let named ← find (quote :: key ++ [quote]) json
  let assigned ← find [colon] named
  return (assigned.drop 1).dropWhile (· == blank)

/-- The text before the first quote that is not part of an escape. -/
def quoted : Bytes → Option Bytes
  | [] => none
  | byte :: rest =>
    if byte = quote then some []
    else if byte = backslash then
      match rest with
      | [] => none
      | escaped :: rest => (quoted rest).map fun text ↦ byte :: escaped :: text
    else (quoted rest).map fun text ↦ byte :: text

def unescaped (letter : UInt8) : UInt8 :=
  if letter = 0x6E then 0x0A
  else if letter = 0x72 then 0x0D
  else if letter = 0x74 then 0x09
  else if letter = 0x62 then 0x08
  else if letter = 0x66 then 0x0C
  else letter

def unescape : Bytes → Bytes
  | [] => []
  | byte :: rest =>
    if byte = backslash then
      match rest with
      | [] => [byte]
      | letter :: rest => unescaped letter :: unescape rest
    else byte :: unescape rest

theorem quoted_quote (rest : Bytes) : quoted (quote :: rest) = some [] := by
  rw [quoted.eq_def]
  simp

theorem quoted_plain {byte : UInt8} (hquote : byte ≠ quote) (hslash : byte ≠ backslash)
    (rest : Bytes) : quoted (byte :: rest) = (quoted rest).map (byte :: ·) := by
  rw [quoted.eq_def]
  simp [hquote, hslash]

theorem quoted_escape (letter : UInt8) (rest : Bytes) :
    quoted (backslash :: letter :: rest) = (quoted rest).map (backslash :: letter :: ·) := by
  rw [quoted.eq_def]
  simp [backslash, quote]

theorem unescape_plain {byte : UInt8} (hslash : byte ≠ backslash) (rest : Bytes) :
    unescape (byte :: rest) = byte :: unescape rest := by
  rw [unescape.eq_def]
  simp [hslash]

theorem unescape_escape (letter : UInt8) (rest : Bytes) :
    unescape (backslash :: letter :: rest) = unescaped letter :: unescape rest := by
  rw [unescape.eq_def]
  simp

def jsonGetStr (json key : Bytes) : Bytes :=
  match valueOf json key with
  | none | some [] => []
  | some (byte :: rest) =>
    if byte = quote then ((quoted rest).map unescape).getD [] else []

def jsonGetBool (json key : Bytes) (default : Bool) : Bool :=
  match valueOf json key with
  | none | some [] => default
  | some (byte :: _) => byte = 0x74 || byte = 0x54

def isSpace (byte : UInt8) : Bool := byte = 0x20 || (0x09 ≤ byte && byte ≤ 0x0D)

def isDigit (byte : UInt8) : Bool := 0x30 ≤ byte && byte ≤ 0x39

def digitsValue (text : Bytes) : Nat :=
  (text.takeWhile isDigit).foldl (fun total digit ↦ total * 10 + (digit.toNat - 0x30)) 0

/-- `atoi`, which stays at the ends of the range of `int`. -/
def atoi (text : Bytes) : Int :=
  match text.dropWhile isSpace with
  | [] => 0
  | sign :: rest =>
    if sign = 0x2D then max (-2147483648) (-(digitsValue rest : Int))
    else if sign = 0x2B then min 2147483647 (digitsValue rest : Int)
    else min 2147483647 (digitsValue (sign :: rest) : Int)

def jsonGetInt (json key : Bytes) (default : Int) : Int :=
  match valueOf json key with
  | none | some [] => default
  | some text => atoi text

def present (json key : Bytes) : Bool :=
  match valueOf json key with
  | none | some [] => false
  | some (_ :: _) => true

theorem valueOf_of_absent {json key : Bytes} (habsent : present json key = false) :
    valueOf json key = none ∨ valueOf json key = some [] := by
  rw [present] at habsent
  cases hvalue : valueOf json key with
  | none => exact .inl rfl
  | some text =>
    cases text with
    | nil => exact .inr rfl
    | cons byte rest => simp [hvalue] at habsent

theorem jsonGetBool_of_absent {json key : Bytes} (habsent : present json key = false)
    (default : Bool) : jsonGetBool json key default = default := by
  rw [jsonGetBool]
  rcases valueOf_of_absent habsent with hvalue | hvalue <;> simp only [hvalue]

theorem jsonGetInt_of_absent {json key : Bytes} (habsent : present json key = false)
    (default : Int) : jsonGetInt json key default = default := by
  rw [jsonGetInt]
  rcases valueOf_of_absent habsent with hvalue | hvalue <;> simp only [hvalue]

end DhcpServer.Web.Json
