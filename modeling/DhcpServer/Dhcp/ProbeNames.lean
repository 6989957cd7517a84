import DhcpServer.Library.Reads
import DhcpServer.Library.WireNames
import Mathlib.Data.List.DropRight

/-!
# Names in the answers to the probes

`skipName` comes behind a name exactly where one stands. `decodeName` reads a name, but takes the end of the
datagram for the end of a name as well.
-/

/-!
## Asking a client for its name

What the reverse-DNS probe and the NetBIOS probe read of an answer, with every byte taken out of the datagram
as received. Both walk over the questions and records in the same way; a name that cannot be skipped gives an
offset behind the datagram, which every later look at the room refuses.
-/

namespace DhcpServer.Dhcp

open Library Reads

namespace DnsMessage

def kHeaderBytes : Nat := 12
def kIdOffset : Nat := 0
def kFlags1Offset : Nat := 2
def kFlags2Offset : Nat := 3
def kQdCountOffset : Nat := 4
def kAnCountOffset : Nat := 6
def kFlagResponse : UInt8 := 0x80
def kMaskRcode : UInt8 := 0x0F
def kMaskLabelType : UInt8 := 0xC0
def kLabelPointer : UInt8 := 0xC0
def kMaskPointerOffset : UInt8 := 0x3F
def kMaxLabelBytes : Nat := 63
def kQuestionTailBytes : Nat := 4
def kRecordFixedBytes : Nat := 10
def kRdLengthOffset : Nat := 8
def kRdataOffset : Nat := kRecordFixedBytes
def kMaxNameJumps : Nat := 8

/-- The question and answer counts of an answer to the query `id`. -/
def readHeader (data : Bytes) (id : UInt16) : Option (Option (UInt16 × UInt16)) :=
  if data.length < kHeaderBytes then some none
  else do
    let answerId ← wordAt data kIdOffset
    if answerId ≠ id then some none
    else
      let flags1 ← data[kFlags1Offset]?
      if flags1 &&& kFlagResponse = 0 then some none
      else
        let flags2 ← data[kFlags2Offset]?
        if flags2 &&& kMaskRcode ≠ 0 then some none
        else
          let questions ← wordAt data kQdCountOffset
          let answers ← wordAt data kAnCountOffset
          some (some (questions, answers))

/-- The offset behind the name at `off`. The count of jumps of the source never gets beyond 1, for a pointer
ends the name. -/
def skipName (data : Bytes) (off : Nat) : Option Nat :=
  if off < data.length then do
    let label ← data[off]?
    if label = 0 then some (off + 1)
    else if label &&& kMaskLabelType = kLabelPointer then
      if data.length ≤ off + 1 then some (data.length + 1)
      else
        let low ← data[off + 1]?
        let target := (label &&& kMaskPointerOffset).toNat <<< 8 ||| low.toNat
        if off ≤ target then some (data.length + 1) else some (off + 2)
    else if kMaxLabelBytes < label.toNat ∨ data.length < off + 1 + label.toNat then some (data.length + 1)
    else skipName data (off + (1 + label.toNat))
  else some (data.length + 1)
termination_by data.length - off

def decodeName (data : Bytes) (off jumps : Nat) (out : Bytes) : Option Bytes :=
  if off < data.length then do
    let label ← data[off]?
    if label = 0 then some out
    else if label &&& kMaskLabelType = kLabelPointer then
      if data.length ≤ off + 1 then some []
      else if kMaxNameJumps < jumps + 1 then some []
      else
        let low ← data[off + 1]?
        let target := (label &&& kMaskPointerOffset).toNat <<< 8 ||| low.toNat
        if off ≤ target then some [] else decodeName data target (jumps + 1) out
    else if kMaxLabelBytes < label.toNat ∨ data.length < off + 1 + label.toNat then some []
    else
      let separator := if out.isEmpty then [] else [0x2E]
      let text ← bytesAt data (off + 1) label.toNat
      decodeName data (off + (1 + label.toNat)) jumps (out ++ separator ++ text)
  else some out
termination_by (kMaxNameJumps - jumps) * (data.length + 1) + (data.length - off)
decreasing_by
  · -- a pointer goes back, but there is one less to follow
    rename_i hjumps _
    obtain ⟨left, hleft⟩ : ∃ left, kMaxNameJumps - jumps = left + 1 := ⟨kMaxNameJumps - jumps - 1, by omega⟩
    rw [hleft, show kMaxNameJumps - (jumps + 1) = left by omega, Nat.succ_mul]
    omega
  · omega

def skipQuestions (data : Bytes) : Nat → Nat → Option (Option Nat)
  | 0, off => some (some off)
  | count + 1, off => do
    let behind ← skipName data off
    if data.length < behind + kQuestionTailBytes then some none
    else skipQuestions data count (behind + kQuestionTailBytes)

/-- Where the data of the first record of a type stands and how long it is. -/
def findRecord (data : Bytes) (wanted : UInt16) : Nat → Nat → Option (Option (Nat × Nat))
  | 0, _ => some none
  | count + 1, off => do
    let fixed ← skipName data off
    if data.length < fixed + kRecordFixedBytes then some none
    else
      let type ← wordAt data fixed
      let rdLength ← wordAt data (fixed + kRdLengthOffset)
      if data.length < fixed + kRecordFixedBytes + rdLength.toNat then some none
      else if type = wanted then some (some (fixed + kRdataOffset, rdLength.toNat))
      else findRecord data wanted count (fixed + (kRecordFixedBytes + rdLength.toNat))

/-- What both probes begin with: the data of the first record of a type in an answer to the query `id`. -/
def recordOf (data : Bytes) (id wanted : UInt16) : Option (Option (Nat × Nat)) := do
  match ← readHeader data id with
  | none => some none
  | some (questions, answers) =>
    if answers = 0 then some none
    else
      match ← skipQuestions data questions.toNat kHeaderBytes with
      | none => some none
      | some off => findRecord data wanted answers.toNat off

end DnsMessage

namespace PtrProbe

def kTypePtr : UInt16 := 12

def parseResponse (data : Bytes) (id : UInt16) : Option Bytes := do
  match ← DnsMessage.recordOf data id kTypePtr with
  | none => some []
  | some (rdata, _) => DnsMessage.decodeName data rdata 0 []

end PtrProbe

namespace NbstatProbe

def kTypeNbstat : UInt16 := 0x0021
def kEntryNameBytes : Nat := 15
def kEntrySuffixOffset : Nat := 15
def kEntryFlagsOffset : Nat := 16
def kTableCountBytes : Nat := 1
def kEntryBytes : Nat := 18
def kSuffixWorkstation : UInt8 := 0x00
def kFlagGroup : UInt16 := 0x8000

/-- One entry of the name table; the name is without the blanks and zero bytes behind it. -/
structure NameEntry where
  name : Bytes
  suffix : UInt8
  flags : UInt16

def isPadding (byte : UInt8) : Bool := byte == 0x20 || byte == 0

def readEntry (data : Bytes) (entry : Nat) : Option NameEntry := do
  let name ← bytesAt data entry kEntryNameBytes
  let suffix ← data[entry + kEntrySuffixOffset]?
  let flags ← wordAt data (entry + kEntryFlagsOffset)
  some ⟨name.rdropWhile isPadding, suffix, flags⟩

def readEntries (data : Bytes) : Nat → Nat → Option (List NameEntry)
  | 0, _ => some []
  | count + 1, off => do
    let entry ← readEntry data off
    let entries ← readEntries data count (off + kEntryBytes)
    some (entry :: entries)

/-- The table of `count` entries at `off`, if it ends before `len`. -/
def readTable (data : Bytes) (len off : Nat) (count : UInt8) : Option (Option (List NameEntry)) :=
  if len < off + count.toNat * kEntryBytes then some none
  else do
    let entries ← readEntries data count.toNat off
    some (some entries)

/-- The loop over the table: the first workstation name, or else the first name that is no group. -/
def chooseName (firstUnique : Bytes) : List NameEntry → Bytes
  | [] => firstUnique
  | e :: entries =>
    if e.flags &&& kFlagGroup ≠ 0 then chooseName firstUnique entries
    else if e.name.isEmpty then chooseName firstUnique entries
    else if e.suffix = kSuffixWorkstation then e.name
    else chooseName (if firstUnique.isEmpty then e.name else firstUnique) entries

def parseResponse (data : Bytes) (id : UInt16) : Option Bytes := do
  match ← DnsMessage.recordOf data id kTypeNbstat with
  | none => some []
  | some (table, rdLength) =>
    if rdLength < kTableCountBytes ∨ data.length < table + rdLength then some []
    else
      let count ← data[table]?
      match ← readTable data (table + rdLength) (table + kTableCountBytes) count with
      | none => some []
      | some entries => some (chooseName [] entries)

end NbstatProbe

end DhcpServer.Dhcp

namespace DhcpServer.Dhcp

open Library Reads

open WireNames (Limits NameAt addLabel pointerTarget)

namespace DnsMessage

variable {data : Bytes} {jumps pos off behind : Nat} {text name out : Bytes}

/-- What `decodeName` puts up with: a pointer goes back. -/
def limits : Limits where
  pointers := kMaxNameJumps
  admits pos target := target < pos
  fits _ _ := true

/-- A name as it stands at a place: labels up to a zero byte or a pointer that goes back. -/
inductive OwnerAt (data : Bytes) : (pos behind : Nat) → Prop
  | root {pos : Nat} (hroot : data[pos]? = some 0) : OwnerAt data pos (pos + 1)
  | pointer {pos : Nat} {first second : UInt8} (hfirst : data[pos]? = some first)
    (hpointer : first &&& kMaskLabelType = kLabelPointer) (hsecond : data[pos + 1]? = some second)
    (hback : pointerTarget first second < pos) : OwnerAt data pos (pos + 2)
  | label {pos behind : Nat} {byte : UInt8} (hbyte : data[pos]? = some byte) (hzero : byte ≠ 0)
    (hshort : byte.toNat ≤ kMaxLabelBytes) (hinside : pos + 1 + byte.toNat ≤ data.length)
    (hrest : OwnerAt data (pos + 1 + byte.toNat) behind) : OwnerAt data pos behind

/-- Labels and pointers that lead to the end of the datagram without a zero byte; `out` is their text. -/
inductive RunsOff (data : Bytes) : (jumps : Nat) → (text : Bytes) → (pos : Nat) → (out : Bytes) → Prop
  | off {jumps pos : Nat} {text : Bytes} (hend : data.length ≤ pos) : RunsOff data jumps text pos text
  | pointer {jumps pos : Nat} {text out : Bytes} {first second : UInt8} (hfirst : data[pos]? = some first)
    (hpointer : first &&& kMaskLabelType = kLabelPointer) (hsecond : data[pos + 1]? = some second)
    (hjumps : jumps < kMaxNameJumps) (hback : pointerTarget first second < pos)
    (hrest : RunsOff data (jumps + 1) text (pointerTarget first second) out) : RunsOff data jumps text pos out
  | label {jumps pos : Nat} {text out : Bytes} {byte : UInt8} (hbyte : data[pos]? = some byte)
    (hzero : byte ≠ 0) (hshort : byte.toNat ≤ kMaxLabelBytes) (hinside : pos + 1 + byte.toNat ≤ data.length)
    (hrest : RunsOff data jumps (addLabel text ((data.drop (pos + 1)).take byte.toNat))
      (pos + 1 + byte.toNat) out) : RunsOff data jumps text pos out

/-- What stands from `pos` on ends before `stop`, or comes to a pointer before it. -/
inductive StaysBefore (data : Bytes) (stop : Nat) : (pos : Nat) → Prop
  | root {pos : Nat} (hroot : data[pos]? = some 0) (hstop : pos + 1 ≤ stop) : StaysBefore data stop pos
  | pointer {pos : Nat} {first : UInt8} (hfirst : data[pos]? = some first)
    (hpointer : first &&& kMaskLabelType = kLabelPointer) (hstop : pos ≤ stop) : StaysBefore data stop pos
  | label {pos : Nat} {byte : UInt8} (hbyte : data[pos]? = some byte) (hzero : byte ≠ 0)
    (hshort : byte.toNat ≤ kMaxLabelBytes) (hstop : pos + 1 + byte.toNat ≤ stop)
    (hrest : StaysBefore data stop (pos + 1 + byte.toNat)) : StaysBefore data stop pos

variable {byte : UInt8}

theorem short_of_label (hlabel : byte &&& kMaskLabelType = 0) : byte.toNat ≤ kMaxLabelBytes :=
  WireNames.toNat_le_of_maskLabelType hlabel

theorem ne_pointer_of_short (hshort : byte.toNat ≤ kMaxLabelBytes) :
    byte &&& kMaskLabelType ≠ kLabelPointer := by
  have hlabel : byte &&& kMaskLabelType = 0 := WireNames.and_maskLabelType hshort
  rw [hlabel]
  decide

theorem ne_zero_of_pointer (hpointer : byte &&& kMaskLabelType = kLabelPointer) : byte ≠ 0 := by
  rintro rfl
  exact absurd hpointer (by decide)

theorem lt_of_byteAt (hbyte : data[pos]? = some byte) : pos < data.length :=
  (List.getElem?_eq_some_iff.mp hbyte).1

theorem exists_byteAt (hinside : pos < data.length) : ∃ byte, data[pos]? = some byte :=
  ⟨_, byteAt_eq hinside⟩

theorem skipName_cases (data : Bytes) (off : Nat) :
    (∃ behind, OwnerAt data off behind ∧ skipName data off = some behind) ∨
      skipName data off = some (data.length + 1) := by
  induction hleft : data.length - off using Nat.strong_induction_on generalizing off with
  | _ left ih =>
    rw [skipName]
    by_cases hoff : off < data.length
    · obtain ⟨byte, hbyte⟩ := exists_byteAt hoff
      rw [if_pos hoff, hbyte]
      simp only [Option.bind_eq_bind, Option.bind_some]
      by_cases hzero : byte = 0
      · rw [if_pos hzero]
        exact .inl ⟨_, .root (hbyte.trans (congrArg some hzero)), rfl⟩
      rw [if_neg hzero]
      by_cases hpointer : byte &&& kMaskLabelType = kLabelPointer
      · rw [if_pos hpointer]
        by_cases hend : data.length ≤ off + 1
        · exact .inr (if_pos hend)
        · obtain ⟨low, hlow⟩ := exists_byteAt (not_le.mp hend)
          rw [if_neg hend, hlow]
          simp only [Option.bind_some]
          by_cases hforward : off ≤ (byte &&& kMaskPointerOffset).toNat <<< 8 ||| low.toNat
          · exact .inr (if_pos hforward)
          · exact .inl ⟨_, .pointer hbyte hpointer hlow (not_le.mp hforward), if_neg hforward⟩
      · rw [if_neg hpointer]
        by_cases hlong : kMaxLabelBytes < byte.toNat ∨ data.length < off + 1 + byte.toNat
        · exact .inr (if_pos hlong)
        · rw [if_neg hlong, ← Nat.add_assoc]
          rw [not_or, not_lt, not_lt] at hlong
          refine (ih _ (by omega) _ rfl).imp_left ?_
          rintro ⟨behind, howner, hskip⟩
          exact ⟨behind, .label hbyte hzero hlong.1 hlong.2 howner, hskip⟩
    · exact .inr (if_neg hoff)

theorem OwnerAt.skipName (howner : OwnerAt data off behind) :
    DnsMessage.skipName data off = some behind := by
  induction howner with
  | root hroot =>
    rw [DnsMessage.skipName, if_pos (lt_of_byteAt hroot), hroot]
    rfl
  | pointer hfirst hpointer hsecond hback =>
    rw [DnsMessage.skipName, if_pos (lt_of_byteAt hfirst), hfirst]
    simp only [Option.bind_eq_bind, Option.bind_some]
    rw [if_neg (ne_zero_of_pointer hpointer), if_pos hpointer, if_neg (not_le.mpr (lt_of_byteAt hsecond)),
      hsecond]
    exact if_neg (not_le.mpr hback)
  | label hbyte hzero hshort hinside _ ih =>
    rw [DnsMessage.skipName, if_pos (lt_of_byteAt hbyte), hbyte]
    simp only [Option.bind_eq_bind, Option.bind_some]
    rw [if_neg hzero, if_neg (ne_pointer_of_short hshort), if_neg (by omega), ← Nat.add_assoc]
    exact ih

theorem ownerAt_of_skipName (hskip : skipName data off = some behind) (hinside : behind ≤ data.length) :
    OwnerAt data off behind := by
  rcases skipName_cases data off with ⟨place, howner, hplace⟩ | hbad
  · obtain rfl := Option.some.inj (hplace.symm.trans hskip)
    exact howner
  · obtain rfl := Option.some.inj (hbad.symm.trans hskip)
    omega

theorem exists_skipName (data : Bytes) (off : Nat) : ∃ behind, skipName data off = some behind := by
  rcases skipName_cases data off with ⟨behind, -, hskip⟩ | hbad
  · exact ⟨behind, hskip⟩
  · exact ⟨_, hbad⟩

theorem decodeName_label (hbyte : data[off]? = some byte) (hzero : byte ≠ 0)
    (hshort : byte.toNat ≤ kMaxLabelBytes) (hinside : off + 1 + byte.toNat ≤ data.length) (jumps : Nat)
    (text : Bytes) :
    decodeName data off jumps text = decodeName data (off + 1 + byte.toNat) jumps
      (addLabel text ((data.drop (off + 1)).take byte.toNat)) := by
  rw [decodeName, if_pos (lt_of_byteAt hbyte), hbyte]
  simp only [Option.bind_eq_bind, Option.bind_some]
  rw [if_neg hzero, if_neg (ne_pointer_of_short hshort), if_neg (by omega), bytesAt_eq hinside,
    ← Nat.add_assoc]
  rfl

theorem decodeName_pointer {first second : UInt8} (hfirst : data[off]? = some first)
    (hpointer : first &&& kMaskLabelType = kLabelPointer) (hsecond : data[off + 1]? = some second)
    (hjumps : jumps < kMaxNameJumps) (hback : pointerTarget first second < off) (text : Bytes) :
    decodeName data off jumps text = decodeName data (pointerTarget first second) (jumps + 1) text := by
  rw [decodeName, if_pos (lt_of_byteAt hfirst), hfirst]
  simp only [Option.bind_eq_bind, Option.bind_some]
  rw [if_neg (ne_zero_of_pointer hpointer), if_pos hpointer, if_neg (not_le.mpr (lt_of_byteAt hsecond)),
    if_neg (not_lt.mpr hjumps), hsecond]
  exact if_neg (not_le.mpr hback)

theorem decodeName_of_nameAt (hname : NameAt limits data jumps text off name behind) :
    decodeName data off jumps text = some name := by
  induction hname with
  | root hroot =>
    rw [decodeName, if_pos (lt_of_byteAt hroot), hroot]
    rfl
  | pointer hfirst hpointer hsecond hjumps hadmits _ ih =>
    rw [decodeName_pointer hfirst hpointer hsecond hjumps (of_decide_eq_true hadmits), ih]
  | label hbyte hzero hlabel hinside _ _ ih =>
    rw [decodeName_label hbyte hzero (short_of_label hlabel) hinside, ih]

theorem decodeName_of_runsOff (hruns : RunsOff data jumps text off out) :
    decodeName data off jumps text = some out := by
  induction hruns with
  | off hend => rw [decodeName, if_neg (not_lt.mpr hend)]
  | pointer hfirst hpointer hsecond hjumps hback _ ih =>
    rw [decodeName_pointer hfirst hpointer hsecond hjumps hback, ih]
  | label hbyte hzero hshort hinside _ ih => rw [decodeName_label hbyte hzero hshort hinside, ih]

theorem decodeName_cases (data : Bytes) (off jumps : Nat) (text : Bytes) :
    (∃ name behind, NameAt limits data jumps text off name behind) ∨
      (∃ out, RunsOff data jumps text off out) ∨ decodeName data off jumps text = some [] := by
  fun_induction decodeName data off jumps text with
  | case2 off jumps text hend => exact .inr (.inl ⟨text, .off (not_lt.mp hend)⟩)
  | case1 off jumps text hoff ihPointer ihLabel =>
    obtain ⟨byte, hbyte⟩ := exists_byteAt hoff
    rw [hbyte]
    simp only [Option.bind_eq_bind, Option.bind_some]
    by_cases hzero : byte = 0
    · exact .inl ⟨text, _, .root (hbyte.trans (congrArg some hzero))⟩
    rw [if_neg hzero]
    by_cases hpointer : byte &&& kMaskLabelType = kLabelPointer
    · rw [if_pos hpointer]
      by_cases hend : data.length ≤ off + 1
      · exact .inr (.inr (if_pos hend))
      rw [if_neg hend]
      by_cases hmany : kMaxNameJumps < jumps + 1
      · exact .inr (.inr (if_pos hmany))
      obtain ⟨low, hlow⟩ := exists_byteAt (not_le.mp hend)
      rw [if_neg hmany, hlow]
      simp only [Option.bind_some]
      by_cases hforward : off ≤ (byte &&& kMaskPointerOffset).toNat <<< 8 ||| low.toNat
      · exact .inr (.inr (if_pos hforward))
      rw [if_neg hforward]
      have hback : pointerTarget byte low < off := not_le.mp hforward
      rcases ihPointer byte hend hmany low hforward with ⟨name, behind, hname⟩ | ⟨out, hruns⟩ | hbad
      · exact .inl ⟨name, _, .pointer hbyte hpointer hlow (not_lt.mp hmany) (decide_eq_true hback) hname⟩
      · exact .inr (.inl ⟨out, .pointer hbyte hpointer hlow (not_lt.mp hmany) hback hruns⟩)
      · exact .inr (.inr hbad)
    · rw [if_neg hpointer]
      by_cases hlong : kMaxLabelBytes < byte.toNat ∨ data.length < off + 1 + byte.toNat
      · exact .inr (.inr (if_pos hlong))
      have hlater := ihLabel byte hlong ((data.drop (off + 1)).take byte.toNat)
      rw [if_neg hlong]
      rw [not_or, not_lt, not_lt] at hlong
      rw [bytesAt_eq hlong.2]
      simp only [Option.bind_some]
      rw [← Nat.add_assoc] at hlater ⊢
      rcases hlater with ⟨name, behind, hname⟩ | ⟨out, hruns⟩ | hbad
      · exact .inl ⟨name, _, .label hbyte hzero (WireNames.and_maskLabelType hlong.1) hlong.2 rfl hname⟩
      · exact .inr (.inl ⟨out, .label hbyte hzero hlong.1 hlong.2 hruns⟩)
      · exact .inr (.inr hbad)

theorem exists_decodeName (data : Bytes) (off jumps : Nat) (text : Bytes) :
    ∃ out, decodeName data off jumps text = some out := by
  rcases decodeName_cases data off jumps text with ⟨name, behind, hname⟩ | ⟨out, hruns⟩ | hbad
  · exact ⟨name, decodeName_of_nameAt hname⟩
  · exact ⟨out, decodeName_of_runsOff hruns⟩
  · exact ⟨[], hbad⟩

theorem not_runsOff_of_nameAt (hname : NameAt limits data jumps text off name behind) :
    ¬RunsOff data jumps text off out := by
  induction hname with
  | root hroot =>
    rintro (hend | ⟨hfirst, hpointer, -, -, -, -⟩ | ⟨hbyte, hzero, -, -, -⟩)
    · exact absurd (lt_of_byteAt hroot) (not_lt.mpr hend)
    · obtain rfl := Option.some.inj (hroot.symm.trans hfirst)
      exact ne_zero_of_pointer hpointer rfl
    · exact hzero (Option.some.inj (hbyte.symm.trans hroot))
  | pointer hfirst hpointer hsecond hjumps hadmits _ ih =>
    rintro (hend | ⟨hother, -, hlow, -, -, hrest⟩ | ⟨hbyte, -, hshort, -, -⟩)
    · exact absurd (lt_of_byteAt hfirst) (not_lt.mpr hend)
    · obtain rfl := Option.some.inj (hfirst.symm.trans hother)
      obtain rfl := Option.some.inj (hsecond.symm.trans hlow)
      exact ih hrest
    · obtain rfl := Option.some.inj (hfirst.symm.trans hbyte)
      exact ne_pointer_of_short hshort hpointer
  | label hbyte hzero hlabel hinside _ _ ih =>
    rintro (hend | ⟨hfirst, hpointer, -, -, -, -⟩ | ⟨hother, -, -, -, hrest⟩)
    · exact absurd (lt_of_byteAt hbyte) (not_lt.mpr hend)
    · obtain rfl := Option.some.inj (hbyte.symm.trans hfirst)
      exact ne_pointer_of_short (short_of_label hlabel) hpointer
    · obtain rfl := Option.some.inj (hbyte.symm.trans hother)
      exact ih hrest

end DnsMessage

end DhcpServer.Dhcp
