import DhcpServer.Library.Bytes

/-!
# The name a DHCP client reports about itself

`DhcpClientName`: option 12 (host name) first, the short label of option 81 (FQDN) otherwise,
both filtered by `sanitize` because the text ends up in JSON and in stored settings. The loops of
the source run on an index into the option field; the fuel of each loop is the number of bytes
it can still step over, and every turn steps over at least one.
-/

namespace DhcpServer.Dhcp.ClientName

open Library

def kOptPad : UInt8 := 0
def kOptEnd : UInt8 := 255
def kOptHostName : UInt8 := 12
def kOptFqdn : UInt8 := 81
def kFqdnFlagE : UInt8 := 0x04
def kMaxLen : Nat := 32

/-- Where the value of an option lies in the option field. -/
structure OptionValue where
  start : Nat
  length : Nat

def findOptionFrom (options : Buffer) (len : Nat) (code : UInt8) : (fuel i : Nat) → Option OptionValue
  | 0, _ => none
  | fuel + 1, i =>
    if i < len then
      let opt := options i
      if opt = kOptPad then findOptionFrom options len code fuel (i + 1)
      else if opt = kOptEnd then none
      else if len ≤ i + 1 then none
      else
        let optLen := (options (i + 1)).toNat
        if len < i + 2 + optLen then none
        else if opt = code then some ⟨i + 2, optLen⟩
        else findOptionFrom options len code fuel (i + 2 + optLen)
    else none

def findOption (options : Buffer) (len : Nat) (code : UInt8) : Option OptionValue :=
  findOptionFrom options len code len 0

/-- RFC 1035 labels into dotted text; any malformed label makes the whole name empty. -/
def decodeDnsNameFrom (data : Buffer) (len : Nat) : (fuel i : Nat) → Bytes → Bytes
  | 0, _, out => out
  | fuel + 1, i, out =>
    if i < len then
      let labelLen := (data i).toNat
      if labelLen = 0 then out
      else if 63 < labelLen ∨ len < i + 1 + labelLen then []
      else
        let dotted := if out.isEmpty then out else out ++ [0x2E]
        decodeDnsNameFrom data len fuel (i + 1 + labelLen) (dotted ++ slice data (i + 1) labelLen)
    else out

def decodeDnsName (data : Buffer) (len : Nat) : Bytes := decodeDnsNameFrom data len len 0 []

def isContinuation (byte : Option UInt8) : Bool :=
  match byte with
  | some b => b &&& 0xC0 == 0x80
  | none => false

/-- Length of the character starting with `c`, and whether it is kept. -/
def classify (c : UInt8) (rest : Bytes) : Nat × Bool :=
  if 0x20 ≤ c ∧ c < 0x7F then (1, c != 0x7C)
  else if 0xC2 ≤ c ∧ c ≤ 0xDF then (2, isContinuation rest[0]?)
  else if 0xE0 ≤ c ∧ c ≤ 0xEF then (3, isContinuation rest[0]? && isContinuation rest[1]?)
  else if 0xF0 ≤ c ∧ c ≤ 0xF4 then
    (4, isContinuation rest[0]? && isContinuation rest[1]? && isContinuation rest[2]?)
  else (1, false)

def filterChars : (fuel : Nat) → (name out : Bytes) → Bytes
  | 0, _, out => out
  | _ + 1, [], out => out
  | fuel + 1, c :: rest, out =>
    match classify c rest with
    | (charLen, true) =>
      if kMaxLen < out.length + charLen then out
      else filterChars fuel (rest.drop (charLen - 1)) (out ++ (c :: rest).take charLen)
    | (_, false) => filterChars fuel rest out

def trimSpaces (text : Bytes) : Bytes :=
  (((text.dropWhile (· == 0x20)).reverse).dropWhile (· == 0x20)).reverse

def sanitize (name : Bytes) : Bytes := trimSpaces (filterChars name.length name [])

def hostNameOption (options : Buffer) (len : Nat) : Bytes :=
  match findOption options len kOptHostName with
  | none => []
  | some value =>
    if value.length = 0 then []
    else sanitize ((slice options value.start value.length).takeWhile (· != 0))

def fqdnOption (options : Buffer) (len : Nat) : Bytes :=
  match findOption options len kOptFqdn with
  | none => []
  | some value =>
    if value.length < 3 then []
    else
      let flags := options value.start
      let name : Buffer := fun i ↦ options (value.start + 3 + i)
      let nameLen := value.length - 3
      let text :=
        if flags &&& kFqdnFlagE != 0 then decodeDnsName name nameLen
        else (slice name 0 nameLen).takeWhile (· != 0)
      (((sanitize text).reverse).dropWhile (· == 0x2E)).reverse

def shortLabel (name : Bytes) : Bytes := name.takeWhile (· != 0x2E)

def fromOptions (options : Buffer) (len : Nat) : Bytes :=
  let host := hostNameOption options len
  if host.isEmpty then shortLabel (fqdnOption options len) else host

end DhcpServer.Dhcp.ClientName
