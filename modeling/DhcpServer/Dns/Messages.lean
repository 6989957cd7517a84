import DhcpServer.Dns.InternalCache

/-!
# DNS messages

What the DNS server reads of a datagram and what it writes into one. Names are read with the
compression pointers followed, with a bound on their number; records are walked without a look at
their names. A builder that does not fit its buffer returns 0 in the source and no bytes here.
-/

namespace DhcpServer.Dns.Message

open Library List

open InternalCache (Inet kTypeA kTypeAaaa)

def kHeaderBytes : Nat := 12
def kFlags1Offset : Nat := 2
def kQdCountOffset : Nat := 4
def kAnCountOffset : Nat := 6
def kMaskLabelType : UInt8 := 0xC0
def kLabelPointer : UInt8 := 0xC0
def kMaskPointerOffset : UInt8 := 0x3F
def kQuestionTailBytes : Nat := 4
def kRecordFixedBytes : Nat := 10
def kMaxNameLen : Nat := 255
def kMaxPointers : Nat := 32
def kMaxLabelLen : Nat := 63
def kFlagQr : UInt16 := 0x8000
def kFlagRd : UInt16 := 0x0100
def kFlagRa : UInt16 := 0x0080
def kRcodeNxdomain : UInt16 := 3

def kMaxMsgSize : Nat := 4096

def dot : UInt8 := 0x2E

/-- `(buf[offset] << 8) | buf[offset + 1]`. -/
def readU16 (data : Bytes) (offset : Nat) : UInt16 :=
  (data.getD offset 0).toUInt16 <<< 8 ||| (data.getD (offset + 1) 0).toUInt16

def bigEndian16 (number : UInt16) : Bytes := [(number >>> 8).toUInt8, number.toUInt8]

def readU32 (data : Bytes) (offset : Nat) : UInt32 :=
  (data.getD offset 0).toUInt32 <<< 24 ||| (data.getD (offset + 1) 0).toUInt32 <<< 16 |||
    (data.getD (offset + 2) 0).toUInt32 <<< 8 ||| (data.getD (offset + 3) 0).toUInt32

def bigEndian32 (number : UInt32) : Bytes :=
  [(number >>> 24).toUInt8, (number >>> 16).toUInt8, (number >>> 8).toUInt8, number.toUInt8]

/-- The transaction id a datagram carries, if it is long enough to carry one. -/
def transactionId (data : Bytes) : Option UInt16 := if data.length < 2 then none else some (readU16 data 0)

theorem readU16_bigEndian16 (number : UInt16) (rest : Bytes) :
    readU16 (bigEndian16 number ++ rest) 0 = number := by
  have hhalves := or_halfBytes number
  have hread : readU16 (bigEndian16 number ++ rest) 0 =
      (number >>> 8).toUInt8.toUInt16 <<< 8 ||| number.toUInt8.toUInt16 := rfl
  rw [hread, UInt16.or_comm, hhalves]

theorem transactionId_bigEndian16 (number : UInt16) (rest : Bytes) :
    transactionId (bigEndian16 number ++ rest) = some number := by
  rw [transactionId, if_neg (by simp [bigEndian16]), readU16_bigEndian16]

/-- The loop of `decodeDomainName`: `name` is what is read so far, `behind` the offset behind the
name where it stands, known from the first pointer on. -/
def decodeLabels (data : Bytes) (pos jumps : Nat) (name : Bytes) (behind : Option Nat) :
    Bytes × Option Nat :=
  if data.length ≤ pos then ([], behind)
  else
    let byte := data.getD pos 0
    if byte = 0 then (name, some (behind.getD (pos + 1)))
    else if byte &&& kMaskLabelType = kLabelPointer then
      if data.length ≤ pos + 1 then ([], behind)
      else
        let behind := some (behind.getD (pos + 2))
        let target := (byte &&& kMaskPointerOffset).toNat <<< 8 ||| (data.getD (pos + 1) 0).toNat
        if kMaxPointers < jumps + 1 then ([], behind)
        else decodeLabels data target (jumps + 1) name behind
    else if byte &&& kMaskLabelType ≠ 0 then ([], behind)
    else
      let labelLen := byte.toNat
      if data.length - (pos + 1) < labelLen then ([], behind)
      else if kMaxNameLen < name.length + labelLen then ([], behind)
      else
        let separator := if name.isEmpty then [] else [dot]
        let label := (data.drop (pos + 1)).take labelLen
        decodeLabels data (pos + 1 + labelLen) jumps (name ++ separator ++ label) behind
termination_by (kMaxPointers + 1 - jumps) * (data.length + 1) + (data.length - pos)
decreasing_by
  · -- a pointer may go anywhere, but there is one less to follow
    rename_i hpointers
    obtain ⟨left, hleft⟩ : ∃ left, kMaxPointers + 1 - jumps = left + 1 := ⟨kMaxPointers - jumps, by omega⟩
    rw [hleft, show kMaxPointers + 1 - (jumps + 1) = left by omega, Nat.succ_mul]
    omega
  · omega

/-- `decodeDomainName`: the name and the offset behind it. Of a bad name nothing is returned, and
the offset stays unless a pointer was met. -/
def decodeDomainName (data : Bytes) (offset : Nat) : Bytes × Nat :=
  let (name, behind) := decodeLabels data offset 0 [] none
  (name, behind.getD offset)

theorem length_decodeLabels_le (data : Bytes) (pos jumps : Nat) (name : Bytes) (behind : Option Nat)
    (hname : name.length ≤ kMaxNameLen + 1) :
    (decodeLabels data pos jumps name behind).1.length ≤ kMaxNameLen + 1 := by
  fun_induction decodeLabels data pos jumps name behind with
  | case9 pos jumps name behind _ byte _ _ _ labelLen _ hfits separator label ih =>
    apply ih
    have hseparator : separator.length ≤ 1 := by
      simp only [separator]
      split <;> simp
    have hlabel : label.length ≤ labelLen := length_take_le _ _
    simp only [length_append]
    omega
  | _ => simp_all

theorem length_decodeDomainName_le (data : Bytes) (offset : Nat) :
    (decodeDomainName data offset).1.length ≤ kMaxNameLen + 1 :=
  length_decodeLabels_le data offset 0 [] none (Nat.zero_le _)

/-- The labels `encodeDomainName` finds in a name; after a final dot there is none. -/
def labelsOf : Bytes → List Bytes
  | [] => []
  | byte :: rest =>
    if byte = dot then [] :: labelsOf rest
    else
      match labelsOf rest with
      | label :: labels => (byte :: label) :: labels
      | [] => [[byte]]

def encodeLabel (label : Bytes) : Bytes :=
  UInt8.ofNat (min label.length kMaxLabelLen) :: label.take kMaxLabelLen

def encodeDomainName (domain : Bytes) : Bytes := (labelsOf domain).flatMap encodeLabel ++ [0]

theorem length_encodeLabels_le (domain : Bytes) :
    ((labelsOf domain).flatMap encodeLabel).length ≤ domain.length + 1 := by
  induction domain with
  | nil => simp [labelsOf]
  | cons byte rest ih =>
    simp only [labelsOf]
    split_ifs
    · simp only [flatMap_cons, length_append, encodeLabel, length_cons, length_take, length_nil]
      omega
    · split
      · rename_i label labels hlabels
        simp only [hlabels, flatMap_cons, length_append, encodeLabel, length_cons, length_take] at ih ⊢
        omega
      · simp [encodeLabel, kMaxLabelLen]

theorem length_encodeDomainName_le (domain : Bytes) :
    (encodeDomainName domain).length ≤ domain.length + 2 := by
  have hlabels := length_encodeLabels_le domain
  simp only [encodeDomainName, length_append, length_singleton]
  omega

structure Question where
  domain : Bytes
  type : UInt16
  cls : UInt16
  id : UInt16
deriving DecidableEq

def parseQuery (data : Bytes) : Option Question :=
  if data.length < kHeaderBytes then none
  else if readU16 data kFlags1Offset &&& kFlagQr ≠ 0 then none
  else if readU16 data kQdCountOffset = 0 then none
  else
    let (domain, offset) := decodeDomainName data kHeaderBytes
    if domain.isEmpty then none
    else if data.length < offset + kQuestionTailBytes then none
    else some ⟨domain, readU16 data offset, readU16 data (offset + 2), readU16 data 0⟩

variable {question : Question}

theorem parseQuery_domain {data : Bytes}
    (hparse : parseQuery data = some question) : question.domain.length ≤ kMaxNameLen + 1 := by
  unfold parseQuery at hparse
  split_ifs at hparse
  dsimp only at hparse
  split_ifs at hparse
  cases hparse
  exact length_decodeDomainName_le data kHeaderBytes

structure AnswerRecord where
  type : UInt16
  ttl : UInt32
  rdata : Bytes

/-- The first loop of `parseForwardAnswer`: the offset behind the questions. -/
def skipQuestions (data : Bytes) : Nat → Nat → Nat
  | 0, offset => offset
  | count + 1, offset =>
    if offset < data.length then
      skipQuestions data count ((decodeDomainName data offset).2 + kQuestionTailBytes)
    else offset

def walkRecords (data : Bytes) : Nat → Nat → List AnswerRecord
  | 0, _ => []
  | count + 1, offset =>
    if data.length < offset + kRecordFixedBytes then []
    else
      let fixed := (decodeDomainName data offset).2
      if data.length < fixed + kRecordFixedBytes then []
      else
        let rdlen := (readU16 data (fixed + 8)).toNat
        let start := fixed + kRecordFixedBytes
        if data.length < start + rdlen then []
        else
          ⟨readU16 data fixed, readU32 data (fixed + 4), (data.drop start).take rdlen⟩ ::
            walkRecords data count (start + rdlen)

def answerRecords (data : Bytes) : List AnswerRecord :=
  if data.length < kHeaderBytes then []
  else
    walkRecords data (readU16 data kAnCountOffset).toNat
      (skipQuestions data (readU16 data kQdCountOffset).toNat kHeaderBytes)

def decimal (byte : UInt8) : Bytes := (Nat.toDigits 10 byte.toNat).map fun digit ↦ UInt8.ofNat digit.toNat

/-- `"%u.%u.%u.%u"`. -/
def dottedQuad (rdata : Bytes) : Bytes := [dot].intercalate (rdata.map decimal)

/-- The address text of an answer record, if it is an address record. -/
def AnswerRecord.ip (inet : Inet) (record : AnswerRecord) : Option Bytes :=
  if record.type = kTypeA ∧ record.rdata.length = 4 then some (dottedQuad record.rdata)
  else if record.type = kTypeAaaa then
    if hlength : record.rdata.length = 16 then
      some (inet.ntop6 ⟨record.rdata.toArray, by simpa using hlength⟩)
    else none
  else none

/-- The body of the walk: an address, and the least lifetime. A lifetime of 0 counts as none yet. -/
def collectAnswer (inet : Inet) (found : List Bytes × UInt32) (record : AnswerRecord) :
    List Bytes × UInt32 :=
  match record.ip inet with
  | some ip =>
    (found.1 ++ [ip], if found.2 = 0 ∨ record.ttl < found.2 then record.ttl else found.2)
  | none => found

/-- The addresses of the answer section, and the least lifetime of their records. -/
def parseForwardAnswer (inet : Inet) (data : Bytes) : List Bytes × UInt32 :=
  (answerRecords data).foldl (collectAnswer inet) ([], 0)

def header (id flags ancount : UInt16) : Bytes :=
  bigEndian16 id ++ bigEndian16 flags ++ bigEndian16 1 ++ bigEndian16 ancount ++ bigEndian16 0 ++
    bigEndian16 0

/-- The header and the question, in a buffer of `bufSize` bytes. -/
def buildQuestion (bufSize : Nat) (flags ancount : UInt16) (question : Question) : Bytes :=
  if bufSize < kHeaderBytes then []
  else
    let named := header question.id flags ancount ++ encodeDomainName question.domain
    if bufSize < named.length + kQuestionTailBytes then []
    else named ++ bigEndian16 question.type ++ bigEndian16 question.cls

def buildNxdomain (bufSize : Nat) (question : Question) : Bytes :=
  buildQuestion bufSize (kFlagQr ||| kFlagRd ||| kFlagRa ||| kRcodeNxdomain) 0 question

theorem buildQuestion_eq (flags ancount : UInt16)
    (hdomain : question.domain.length ≤ kMaxNameLen + 1) :
    ∃ rest, buildQuestion kMaxMsgSize flags ancount question = bigEndian16 question.id ++ rest := by
  have hname := length_encodeDomainName_le question.domain
  have hheader : (header question.id flags ancount).length = 12 := rfl
  have hroom : ¬ kMaxMsgSize < (header question.id flags ancount ++
      encodeDomainName question.domain).length + kQuestionTailBytes := by
    simp only [length_append, hheader, kMaxMsgSize, kQuestionTailBytes]
    simp only [kMaxNameLen] at hdomain
    omega
  rw [buildQuestion, if_neg (by decide)]
  rw [if_neg hroom]
  simp only [header, append_assoc]
  exact ⟨_, rfl⟩

theorem transactionId_buildNxdomain (hdomain : question.domain.length ≤ kMaxNameLen + 1) :
    transactionId (buildNxdomain kMaxMsgSize question) = some question.id := by
  obtain ⟨rest, heq⟩ := buildQuestion_eq _ 0 hdomain
  rw [buildNxdomain, heq, transactionId_bigEndian16]

/-- One answer of `buildAnswer`. A text that is no address leaves in place what is there:
`leftover`. -/
def buildRecord (inet : Inet) (leftover : Buffer) (cls : UInt16) (ttl : UInt32) (ip : Bytes) : Bytes :=
  let isV6 := ip.contains 0x3A
  let fixed := [kLabelPointer, UInt8.ofNat kHeaderBytes] ++
    bigEndian16 (if isV6 then kTypeAaaa else kTypeA) ++ bigEndian16 cls ++ bigEndian32 ttl
  if isV6 then
    fixed ++ bigEndian16 16 ++ ((inet.pton6 (cString ip)).map Vector.toList).getD (slice leftover 0 16)
  else
    fixed ++ bigEndian16 4 ++ ((inet.pton4 (cString ip)).map Vector.toList).getD (slice leftover 0 4)

/-- The loop over the addresses, which stops where the buffer may be full. -/
def buildRecords (inet : Inet) (leftover : Buffer) (bufSize : Nat) (cls : UInt16) (ttl : UInt32) :
    Nat → List Bytes → Bytes
  | _, [] => []
  | pos, ip :: ips =>
    if bufSize < pos + kHeaderBytes + kQuestionTailBytes then []
    else
      let record := buildRecord inet (fun i ↦ leftover (pos + i)) cls ttl ip
      record ++ buildRecords inet leftover bufSize cls ttl (pos + record.length) ips

def buildAnswer (inet : Inet) (leftover : Buffer) (bufSize : Nat) (question : Question)
    (ips : List Bytes) (ttl : UInt32) : Bytes :=
  let asked := buildQuestion bufSize (kFlagQr ||| kFlagRd ||| kFlagRa) (UInt16.ofNat ips.length) question
  if asked.isEmpty then []
  else asked ++ buildRecords inet leftover bufSize question.cls ttl asked.length ips

theorem transactionId_buildAnswer (inet : Inet) (leftover : Buffer)
    (ips : List Bytes) (ttl : UInt32) (hdomain : question.domain.length ≤ kMaxNameLen + 1) :
    transactionId (buildAnswer inet leftover kMaxMsgSize question ips ttl) = some question.id := by
  obtain ⟨rest, heq⟩ := buildQuestion_eq (kFlagQr ||| kFlagRd ||| kFlagRa) (UInt16.ofNat ips.length)
    hdomain
  unfold buildAnswer
  rw [heq, if_neg (by simp [bigEndian16]), append_assoc, transactionId_bigEndian16]

end DhcpServer.Dns.Message
