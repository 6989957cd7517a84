import DhcpServer.Dns.Messages
import DhcpServer.Library.Writer

/-!
# Answers written into a buffer

`buildAnswer` and `buildNxdomain` as they write into a buffer, which has room for `bufSize` bytes. The name is
written before it is asked whether it fits, and a record when 16 bytes are left, though one with an IPv6
address has 28. What is written is what the builders without a buffer give.
-/

namespace DhcpServer.Dns.Message

open Library List

open InternalCache (Inet V4 kTypeA kTypeAaaa)

def encodeLabelInto (writer : Writer) (label : Bytes) : Writer :=
  let labelLen := min label.length kMaxLabelLen
  (writer.put [UInt8.ofNat labelLen]).put (label.take labelLen)

/-- `encodeDomainName`: it is not told how much room there is. -/
def encodeDomainNameInto (writer : Writer) (domain : Bytes) : Writer :=
  ((labelsOf domain).foldl encodeLabelInto writer).put [0]

/-- The header and the question, and whether there was room for them. -/
def buildQuestionInto (buffer : Buffer) (bufSize : Nat) (flags ancount : UInt16) (question : Question) :
    Bool × Writer :=
  let writer := Writer.on buffer
  if bufSize < writer.pos + kHeaderBytes then (false, writer)
  else
    let writer := writer.put (header question.id flags ancount)
    let writer := encodeDomainNameInto writer question.domain
    if bufSize < writer.pos + kQuestionTailBytes then (false, writer)
    else (true, (writer.put (bigEndian16 question.type)).put (bigEndian16 question.cls))

def buildNxdomainInto (buffer : Buffer) (bufSize : Nat) (question : Question) : Nat × Writer :=
  match buildQuestionInto buffer bufSize (kFlagQr ||| kFlagRd ||| kFlagRa ||| kRcodeNxdomain) 0 question with
  | (false, writer) => (0, writer)
  | (true, writer) => (writer.pos, writer)

/-- One round of the loop over the addresses. An IPv4 text that is no address leaves the local `ipAddr` as it
is, an IPv6 text leaves the buffer as it is. -/
def buildRecordInto (inet : Inet) (ipAddr : V4) (cls : UInt16) (ttl : UInt32) (writer : Writer) (ip : Bytes) :
    Writer :=
  let isV6 := ip.contains 0x3A
  let writer := writer.put [kLabelPointer, UInt8.ofNat kHeaderBytes]
  let writer := writer.put (bigEndian16 (if isV6 then kTypeAaaa else kTypeA))
  let writer := (writer.put (bigEndian16 cls)).put (bigEndian32 ttl)
  if isV6 then
    let writer := writer.put (bigEndian16 16)
    match inet.pton6 (cString ip) with
    | some address => writer.put address.toList
    | none => writer.skip 16
  else
    (writer.put (bigEndian16 4)).put ((inet.pton4 (cString ip)).getD ipAddr).toList

/-- The loop over the addresses. What the local `ipAddr` holds before a round may depend on the round. -/
def buildRecordsInto (inet : Inet) (ipAddr : Nat → V4) (bufSize : Nat) (cls : UInt16) (ttl : UInt32) :
    Writer → List Bytes → Writer
  | writer, [] => writer
  | writer, ip :: ips =>
    if bufSize < writer.pos + kHeaderBytes + kQuestionTailBytes then writer
    else
      buildRecordsInto inet ipAddr bufSize cls ttl
        (buildRecordInto inet (ipAddr writer.pos) cls ttl writer ip) ips

def buildAnswerInto (inet : Inet) (ipAddr : Nat → V4) (buffer : Buffer) (bufSize : Nat) (question : Question)
    (ips : List Bytes) (ttl : UInt32) : Nat × Writer :=
  match buildQuestionInto buffer bufSize (kFlagQr ||| kFlagRd ||| kFlagRa) (UInt16.ofNat ips.length)
    question with
  | (false, writer) => (0, writer)
  | (true, writer) =>
    let writer := buildRecordsInto inet ipAddr bufSize question.cls ttl writer ips
    (writer.pos, writer)

theorem encodeLabelInto_eq (writer : Writer) (label : Bytes) :
    encodeLabelInto writer label = writer.put (encodeLabel label) := by
  have htake : label.take (min label.length kMaxLabelLen) = label.take kMaxLabelLen := by
    rw [← take_take, take_of_length_le (length_take_le' _ _)]
  rw [encodeLabelInto, Writer.put_put, htake]
  rfl

theorem encodeDomainNameInto_eq (writer : Writer) (domain : Bytes) :
    encodeDomainNameInto writer domain = writer.put (encodeDomainName domain) := by
  have hlabels (labels : List Bytes) (writer : Writer) :
      (labels.foldl encodeLabelInto writer).put [0] = writer.put (labels.flatMap encodeLabel ++ [0]) := by
    induction labels generalizing writer with
    | nil => rfl
    | cons label labels ih =>
      rw [foldl_cons, encodeLabelInto_eq, ih, Writer.put_put, flatMap_cons, append_assoc]
  exact hlabels (labelsOf domain) writer

def namedEnd (domain : Bytes) : Nat := kHeaderBytes + (encodeDomainName domain).length

def askedEnd (domain : Bytes) : Nat := namedEnd domain + kQuestionTailBytes

def namedHeader (flags ancount : UInt16) (question : Question) : Bytes :=
  header question.id flags ancount ++ encodeDomainName question.domain

theorem length_namedHeader (flags ancount : UInt16) (question : Question) :
    (namedHeader flags ancount question).length = namedEnd question.domain :=
  length_append

theorem buildQuestion_of_room {bufSize : Nat} {question : Question}
    (hroom : askedEnd question.domain ≤ bufSize) (flags ancount : UInt16) :
    buildQuestion bufSize flags ancount question =
      namedHeader flags ancount question ++ bigEndian16 question.type ++ bigEndian16 question.cls := by
  rw [askedEnd, ← length_namedHeader flags ancount] at hroom
  have hheader : ¬bufSize < kHeaderBytes := by
    rw [length_namedHeader, namedEnd] at hroom
    omega
  rw [buildQuestion, if_neg hheader]
  exact if_neg (not_lt.mpr hroom)

theorem buildQuestionInto_cases (buffer : Buffer) (bufSize : Nat) (flags ancount : UInt16)
    (question : Question) :
    let named := namedHeader flags ancount question
    (bufSize < kHeaderBytes ∧
      buildQuestionInto buffer bufSize flags ancount question = (false, Writer.on buffer) ∧
      buildQuestion bufSize flags ancount question = []) ∨
    (kHeaderBytes ≤ bufSize ∧ bufSize < askedEnd question.domain ∧
      buildQuestionInto buffer bufSize flags ancount question = (false, (Writer.on buffer).put named) ∧
      buildQuestion bufSize flags ancount question = []) ∨
    (kHeaderBytes ≤ bufSize ∧ askedEnd question.domain ≤ bufSize ∧
      buildQuestionInto buffer bufSize flags ancount question =
        (true, (Writer.on buffer).put (named ++ bigEndian16 question.type ++ bigEndian16 question.cls)) ∧
      buildQuestion bufSize flags ancount question =
        named ++ bigEndian16 question.type ++ bigEndian16 question.cls) := by
  intro named
  have hput : encodeDomainNameInto ((Writer.on buffer).put (header question.id flags ancount))
      question.domain = (Writer.on buffer).put named := by
    rw [encodeDomainNameInto_eq, Writer.put_put]
    rfl
  have hlength : named.length + kQuestionTailBytes = askedEnd question.domain :=
    congrArg (· + kQuestionTailBytes) (length_namedHeader flags ancount question)
  unfold buildQuestionInto
  simp only [hput, Writer.pos_on, Writer.pos_put, Nat.zero_add, hlength]
  rcases lt_or_ge bufSize kHeaderBytes with hheader | hheader
  · exact .inl ⟨hheader, if_pos hheader, if_pos hheader⟩
  · rcases lt_or_ge bufSize (askedEnd question.domain) with htail | htail
    · refine .inr (.inl ⟨hheader, htail, ?_, ?_⟩)
      · rw [if_neg (by omega), if_pos htail]
      · rw [buildQuestion, if_neg (by omega)]
        exact if_pos (hlength.symm ▸ htail)
    · refine .inr (.inr ⟨hheader, htail, ?_, buildQuestion_of_room htail flags ancount⟩)
      rw [if_neg (by omega), if_neg (by omega), Writer.put_put, Writer.put_put, append_assoc]

def recordBytes (ip : Bytes) : Nat := if ip.contains 0x3A then 28 else 16

theorem length_buildRecord (inet : Inet) (leftover : Buffer) (cls : UInt16) (ttl : UInt32) (ip : Bytes) :
    (buildRecord inet leftover cls ttl ip).length = recordBytes ip := by
  unfold buildRecord recordBytes
  dsimp only
  split
  · cases inet.pton6 (cString ip) <;> simp [bigEndian16, bigEndian32, length_slice]
  · cases inet.pton4 (cString ip) <;> simp [bigEndian16, bigEndian32, length_slice]

theorem buildRecordInto_bytes (inet : Inet) (ipAddr : V4) (cls : UInt16) (ttl : UInt32) (writer : Writer)
    (ip : Bytes) :
    ∃ leftover : Buffer, (buildRecordInto inet ipAddr cls ttl writer ip).bytes =
      writer.bytes ++ buildRecord inet leftover cls ttl ip := by
  unfold buildRecordInto buildRecord
  dsimp only
  split
  · cases inet.pton6 (cString ip) with
    | some address => exact ⟨writer.buffer, by simp [Writer.bytes_put]⟩
    | none =>
      -- what the buffer holds behind the fixed part stays
      have hskip (fixed : Writer) (head : Bytes) (hhead : fixed.bytes = writer.bytes ++ head) :
          ∃ leftover : Buffer, (fixed.skip 16).bytes = writer.bytes ++ (head ++ slice leftover 0 16) := by
        refine ⟨fun i ↦ fixed.buffer (fixed.pos + i), ?_⟩
        rw [Writer.bytes_skip, hhead, append_assoc]
        simp [slice]
      exact hskip _ _ (by simp [Writer.bytes_put])
  · cases inet.pton4 (cString ip) with
    | some address => exact ⟨writer.buffer, by simp [Writer.bytes_put]⟩
    | none =>
      refine ⟨fun i ↦ ipAddr.toList.getD i 0, ?_⟩
      have hslice : slice (fun i ↦ ipAddr.toList.getD i 0) 0 4 = ipAddr.toList := by
        apply ext_getElem
        · simp [length_slice]
        · intro i _ hi
          have hbound : i < 4 := by simpa using hi
          simp [slice, hbound]
      rw [hslice]
      simp [Writer.bytes_put]

theorem buildRecordInto_pos (inet : Inet) (ipAddr : V4) (cls : UInt16) (ttl : UInt32) (writer : Writer)
    (ip : Bytes) : (buildRecordInto inet ipAddr cls ttl writer ip).pos = writer.pos + recordBytes ip := by
  obtain ⟨leftover, hbytes⟩ := buildRecordInto_bytes inet ipAddr cls ttl writer ip
  rw [← Writer.length_bytes, hbytes, length_append, Writer.length_bytes, length_buildRecord]

theorem buildRecordInto_top (inet : Inet) (ipAddr : V4) (cls : UInt16) (ttl : UInt32) {writer : Writer}
    (htop : writer.top ≤ writer.pos) (ip : Bytes) :
    (buildRecordInto inet ipAddr cls ttl writer ip).top ≤ writer.pos + recordBytes ip := by
  rw [← buildRecordInto_pos inet ipAddr cls ttl]
  unfold buildRecordInto
  dsimp only
  split
  · split
    · simp only [Writer.top_put, Writer.pos_put]
      omega
    · simp only [Writer.top_put, Writer.pos_put, Writer.pos_skip, Writer.top_skip]
      omega
  · simp only [Writer.top_put, Writer.pos_put]
    omega

theorem buildRecord_congr (inet : Inet) {left right : Buffer} (hsame : SameBelow 16 left right) (cls : UInt16)
    (ttl : UInt32) (ip : Bytes) : buildRecord inet left cls ttl ip = buildRecord inet right cls ttl ip := by
  unfold buildRecord
  have hlong : slice left 0 16 = slice right 0 16 := hsame.slice_eq le_rfl
  have hshort : slice left 0 4 = slice right 0 4 := hsame.slice_eq (by omega)
  rw [hlong, hshort]

theorem buildRecords_congr (inet : Inet) {left right : Buffer} (bufSize : Nat) (cls : UInt16) (ttl : UInt32)
    {pos : Nat} (ips : List Bytes) (hsame : ∀ i, pos ≤ i → left i = right i) :
    buildRecords inet left bufSize cls ttl pos ips = buildRecords inet right bufSize cls ttl pos ips := by
  induction ips generalizing pos with
  | nil => rfl
  | cons ip ips ih =>
    have hrecord : buildRecord inet (fun i ↦ left (pos + i)) cls ttl ip =
        buildRecord inet (fun i ↦ right (pos + i)) cls ttl ip :=
      buildRecord_congr inet (fun i _ ↦ hsame (pos + i) (Nat.le_add_right pos i)) cls ttl ip
    rw [buildRecords, buildRecords, hrecord]
    dsimp only
    rw [ih fun i hi ↦ hsame i (by omega)]

theorem buildRecordsInto_bytes (inet : Inet) (ipAddr : Nat → V4) (bufSize : Nat) (cls : UInt16) (ttl : UInt32)
    (writer : Writer) (ips : List Bytes) :
    ∃ leftover : Buffer, (buildRecordsInto inet ipAddr bufSize cls ttl writer ips).bytes =
      writer.bytes ++ buildRecords inet leftover bufSize cls ttl writer.pos ips := by
  induction ips generalizing writer with
  | nil => exact ⟨writer.buffer, (append_nil _).symm⟩
  | cons ip ips ih =>
    rw [buildRecordsInto]
    by_cases hfull : bufSize < writer.pos + kHeaderBytes + kQuestionTailBytes
    · refine ⟨writer.buffer, ?_⟩
      rw [if_pos hfull, buildRecords, if_pos hfull, append_nil]
    · obtain ⟨first, hfirst⟩ := buildRecordInto_bytes inet (ipAddr writer.pos) cls ttl writer ip
      obtain ⟨later, hlater⟩ := ih (buildRecordInto inet (ipAddr writer.pos) cls ttl writer ip)
      let leftover : Buffer := fun i ↦
        if i < writer.pos + recordBytes ip then first (i - writer.pos) else later i
      refine ⟨leftover, ?_⟩
      have hrecord : buildRecord inet (fun i ↦ leftover (writer.pos + i)) cls ttl ip =
          buildRecord inet first cls ttl ip := by
        refine buildRecord_congr inet (fun i hi ↦ ?_) cls ttl ip
        have hlong : 16 ≤ recordBytes ip := by
          unfold recordBytes
          split <;> omega
        simp only [leftover]
        rw [if_pos (by omega), Nat.add_sub_cancel_left]
      have hrest : buildRecords inet leftover bufSize cls ttl (writer.pos + recordBytes ip) ips =
          buildRecords inet later bufSize cls ttl (writer.pos + recordBytes ip) ips :=
        buildRecords_congr inet bufSize cls ttl ips fun i hi ↦ if_neg (not_lt.mpr hi)
      rw [if_neg hfull, buildRecords, if_neg hfull, hlater, hfirst, buildRecordInto_pos]
      dsimp only
      rw [length_buildRecord, hrecord, hrest, append_assoc]

theorem buildRecordsInto_top (inet : Inet) (ipAddr : Nat → V4) (bufSize : Nat) (cls : UInt16) (ttl : UInt32)
    {writer : Writer} (htop : writer.top ≤ writer.pos) (ips : List Bytes) :
    (buildRecordsInto inet ipAddr bufSize cls ttl writer ips).top ≤
      (buildRecordsInto inet ipAddr bufSize cls ttl writer ips).pos := by
  induction ips generalizing writer with
  | nil => exact htop
  | cons ip ips ih =>
    rw [buildRecordsInto]
    split
    · exact htop
    · apply ih
      rw [buildRecordInto_pos]
      exact buildRecordInto_top inet _ cls ttl htop ip

theorem buildAnswerInto_bytes (inet : Inet) (ipAddr : Nat → V4) (buffer : Buffer) (bufSize : Nat)
    (question : Question) (ips : List Bytes) (ttl : UInt32) :
    ∃ leftover : Buffer,
      slice (buildAnswerInto inet ipAddr buffer bufSize question ips ttl).2.buffer 0
          (buildAnswerInto inet ipAddr buffer bufSize question ips ttl).1 =
        buildAnswer inet leftover bufSize question ips ttl := by
  have hcases := buildQuestionInto_cases buffer bufSize (kFlagQr ||| kFlagRd ||| kFlagRa)
    (UInt16.ofNat ips.length) question
  unfold buildAnswerInto buildAnswer
  rcases hcases with ⟨-, hinto, hlist⟩ | ⟨-, -, hinto, hlist⟩ | ⟨-, -, hinto, hlist⟩
  · rw [hinto, hlist]
    exact ⟨buffer, rfl⟩
  · rw [hinto, hlist]
    exact ⟨buffer, rfl⟩
  · rw [hinto, hlist]
    obtain ⟨leftover, hbytes⟩ := buildRecordsInto_bytes inet ipAddr bufSize question.cls ttl
      ((Writer.on buffer).put (namedHeader (kFlagQr ||| kFlagRd ||| kFlagRa) (UInt16.ofNat ips.length)
        question ++ bigEndian16 question.type ++ bigEndian16 question.cls)) ips
    refine ⟨leftover, ?_⟩
    rw [Writer.bytes_put, Writer.bytes_on, nil_append, Writer.pos_put, Writer.pos_on, Nat.zero_add]
      at hbytes
    rw [if_neg (by simp [bigEndian16])]
    exact hbytes

theorem top_buildAnswerInto (inet : Inet) (ipAddr : Nat → V4) (buffer : Buffer) {bufSize : Nat}
    {question : Question} (ips : List Bytes) (ttl : UInt32)
    (hroom : askedEnd question.domain ≤ bufSize) :
    (buildAnswerInto inet ipAddr buffer bufSize question ips ttl).2.top ≤
      (buildAnswerInto inet ipAddr buffer bufSize question ips ttl).1 := by
  have hcases := buildQuestionInto_cases buffer bufSize (kFlagQr ||| kFlagRd ||| kFlagRa)
    (UInt16.ofNat ips.length) question
  rcases hcases with ⟨hheader, -⟩ | ⟨-, htail, -⟩ | ⟨-, -, hinto, -⟩
  · rw [askedEnd, namedEnd] at hroom
    omega
  · omega
  · rw [buildAnswerInto, hinto]
    refine buildRecordsInto_top inet ipAddr bufSize question.cls ttl ?_ ips
    rw [Writer.top_put, Writer.pos_put, Writer.top_on, Writer.pos_on]
    exact max_le (Nat.zero_le _) le_rfl

end DhcpServer.Dns.Message
