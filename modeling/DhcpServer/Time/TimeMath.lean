import DhcpServer.Core.LogFileFormat

/-!
# Calendar arithmetic

`TimeMath`: the Gregorian calendar from 1970 to 2100 and the conversion between a date and the seconds since
1970. The year is counted from March, so that the leap day ends it, and 400 years have 146097 days. A date
and a time are read from a text with every field at its place, and written as one.
-/

namespace DhcpServer.Time

open Library

structure DateTime where
  year : Int := 1970
  month : Nat := 1
  day : Nat := 1
  hour : Nat := 0
  minute : Nat := 0
  second : Nat := 0

namespace TimeMath

def kMinYear : Int := 1970
def kMaxYear : Int := 2100
def kMonthsPerYear : Nat := 12
def kFebruary : Nat := 2
def kFebruaryLeapDays : Nat := 29
def kSecondsPerMinute : Int := 60
def kSecondsPerHour : Int := 3600
def kSecondsPerDay : Int := 86400

/-- Days from 1970-01-01 to a date. -/
def daysFromCivil (year : Int) (month day : Nat) : Int :=
  let shifted := if month ≤ kFebruary then year - 1 else year
  let era := (if 0 ≤ shifted then shifted else shifted - 399).tdiv 400
  let yoe := (shifted - era * 400).toNat
  let doy := (153 * (if kFebruary < month then month - 3 else month + 9) + 2) / 5 + day - 1
  let doe := yoe * 365 + yoe / 4 - yoe / 100 + doy
  era * 146097 + doe - 719468

/-- The date some days after 1970-01-01. -/
def civilFromDays (days : Int) : Int × Nat × Nat :=
  let days := days + 719468
  let era := (if 0 ≤ days then days else days - 146096).tdiv 146097
  let doe := (days - era * 146097).toNat
  let yoe := (doe - doe / 1460 + doe / 36524 - doe / 146096) / 365
  let doy := doe - (365 * yoe + yoe / 4 - yoe / 100)
  let mp := (5 * doy + 2) / 153
  let day := doy - (153 * mp + 2) / 5 + 1
  let month := if mp < 10 then mp + 3 else mp - 9
  (yoe + era * 400 + if month ≤ kFebruary then 1 else 0, month, day)

def isLeapYear (year : Int) : Bool := (year.tmod 4 = 0 && year.tmod 100 ≠ 0) || year.tmod 400 = 0

def kDays : List Nat := [31, 28, 31, 30, 31, 30, 31, 31, 30, 31, 30, 31]

/-- 0 for a month that does not exist. -/
def daysInMonth (year : Int) (month : Nat) : Nat :=
  if month < 1 || kMonthsPerYear < month then 0
  else if month = kFebruary && isLeapYear year then kFebruaryLeapDays
  else kDays.getD (month - 1) 0

def isValidDate (year : Int) (month day : Nat) : Bool :=
  kMinYear ≤ year && year ≤ kMaxYear && daysInMonth year month ≠ 0 && 1 ≤ day &&
    day ≤ daysInMonth year month

def kMaxHour : Nat := 23
def kMaxMinute : Nat := 59
def kMaxSecond : Nat := 59

def isValidTime (hour minute second : Nat) : Bool :=
  hour ≤ kMaxHour && minute ≤ kMaxMinute && second ≤ kMaxSecond

/-- So many digits at the beginning of a text; behind its end there is a zero byte. -/
def parseDigits : Bytes → Nat → Nat → Option Nat
  | _, 0, value => some value
  | [], _ + 1, _ => none
  | ch :: text, count + 1, value =>
    if 0x30 ≤ ch ∧ ch ≤ 0x39 then parseDigits text count (value * 10 + (ch.toNat - 0x30)) else none

def kIsoDateLen : Nat := 16
def kIsoDateTimeLen : Nat := 19

def parseSecond (text : Bytes) : Option Nat :=
  if text.length = kIsoDateTimeLen then parseDigits (text.drop 17) 2 0 else some 0

def parseFields (text : Bytes) : Option DateTime := do
  let year ← parseDigits text 4 0
  let month ← parseDigits (text.drop 5) 2 0
  let day ← parseDigits (text.drop 8) 2 0
  let hour ← parseDigits (text.drop 11) 2 0
  let minute ← parseDigits (text.drop 14) 2 0
  let second ← parseSecond text
  some { year := year, month, day, hour, minute, second }

/-- `"YYYY-MM-DD HH:MM"` or `"YYYY-MM-DD HH:MM:SS"`, with a space or a `T` between date and time. -/
def parseDateTime (text : Bytes) : Option DateTime :=
  let len := text.length
  if len ≠ kIsoDateLen ∧ len ≠ kIsoDateTimeLen then none
  else if text.getD 4 0 ≠ 0x2D ∨ text.getD 7 0 ≠ 0x2D then none
  else if text.getD 10 0 ≠ 0x20 ∧ text.getD 10 0 ≠ 0x54 then none
  else if text.getD 13 0 ≠ 0x3A then none
  else if len = kIsoDateTimeLen ∧ text.getD 16 0 ≠ 0x3A then none
  else
    match parseFields text with
    | none => none
    | some dt =>
      if !isValidDate dt.year dt.month dt.day then none
      else if !isValidTime dt.hour dt.minute dt.second then none
      else some dt

/-- Printed into 32 bytes, the last of them a zero. -/
def format (dt : DateTime) : Bytes :=
  (Core.LogFileFormat.zeroPadded 4 dt.year ++ ascii "-" ++ Core.LogFileFormat.zeroPadded 2 dt.month ++
    ascii "-" ++ Core.LogFileFormat.zeroPadded 2 dt.day ++ ascii " " ++
    Core.LogFileFormat.zeroPadded 2 dt.hour ++ ascii ":" ++ Core.LogFileFormat.zeroPadded 2 dt.minute ++
    ascii ":" ++ Core.LogFileFormat.zeroPadded 2 dt.second).take 31

def toUnixSec (dt : DateTime) : Nat :=
  let secs := daysFromCivil dt.year dt.month dt.day * kSecondsPerDay + dt.hour * kSecondsPerHour +
    dt.minute * kSecondsPerMinute + dt.second
  (secs % 0x100000000).toNat

def fromUnixSec (unixSec : Nat) : DateTime :=
  let date := civilFromDays (unixSec / 86400 : Nat)
  let rem := unixSec % 86400
  { year := date.1
    month := date.2.1
    day := date.2.2
    hour := rem / 3600
    minute := rem % 3600 / 60
    second := rem % 60 }

end TimeMath

end DhcpServer.Time
