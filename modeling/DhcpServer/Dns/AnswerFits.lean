import DhcpServer.Dns.AnswerPrefix
import DhcpServer.Dns.AnswerWriter

/-!
# Whether an answer fits and counts its records right

`buildAnswer` writes the name before it asks for room, reserves the bytes of an IPv4 record for every record,
and gives the number of the addresses as the number of the records, whether they fit or not. An empty label in
the domain ends the name of the question too early.
-/

namespace DhcpServer.Dns.Message

open Library WireNames List

open InternalCache (Inet V4 kTypeA kTypeAaaa)
open ForwardSlots (quadInet)

def kNsCountOffset : Nat := 8
def kArCountOffset : Nat := 10

/-- The labels asked for: what stands between the dots, as much of it as a label has room for. -/
def askedLabels (domain : Bytes) : List Bytes := (labelsOf domain).map fun label ↦ label.take kMaxLabelLen

def recordsEnd (data : Bytes) : Nat → Nat → Option Nat
  | 0, offset => some offset
  | count + 1, offset =>
    match recordAt data offset with
    | none => none
    | some (_, behind) => recordsEnd data count behind

/-- A message with the one question and as many whole records as it says, and nothing behind them. -/
structure IsAnswer (question : Question) (message : Bytes) : Prop where
  questions : readU16 message kQdCountOffset = 1
  authorities : readU16 message kNsCountOffset = 0
  additionals : readU16 message kArCountOffset = 0
  body : ∃ behind, LabelsAt message kHeaderBytes (askedLabels question.domain) behind ∧
    behind ≤ kHeaderBytes + kMaxNameLen ∧
    readU16 message behind = question.type ∧ readU16 message (behind + 2) = question.cls ∧
    recordsEnd message (readU16 message kAnCountOffset).toNat (behind + kQuestionTailBytes) =
      some message.length

/-- The builders write nothing behind the buffer, and what `buildAnswer` returns is an answer in it. -/
structure Fits (inet : Inet) (ipAddr : Nat → V4) (buffer : Buffer) (bufSize : Nat) (question : Question)
    (ips : List Bytes) (ttl : UInt32) : Prop where
  nxdomain : (buildNxdomainInto buffer bufSize question).2.top ≤ bufSize
  answer : (buildAnswerInto inet ipAddr buffer bufSize question ips ttl).2.top ≤ bufSize
  message : let built := buildAnswerInto inet ipAddr buffer bufSize question ips ttl
    0 < built.1 → built.1 ≤ bufSize ∧ IsAnswer question (slice built.2.buffer 0 built.1)

/-- The addresses whose records are begun: 16 bytes are left. -/
def begun (bufSize : Nat) : (pos : Nat) → List Bytes → List Bytes
  | _, [] => []
  | pos, ip :: ips =>
    if bufSize < pos + kHeaderBytes + kQuestionTailBytes then []
    else ip :: begun bufSize (pos + recordBytes ip) ips

/-- What the builders need: the name fits, and if the whole question does, then the records that are begun
fit and are as many as the count of the addresses says, no label is empty and the name is not too long. -/
def Fitting (bufSize : Nat) (domain : Bytes) (ips : List Bytes) : Prop :=
  namedEnd domain ≤ bufSize ∧ (askedEnd domain ≤ bufSize →
      askedEnd domain + ((begun bufSize (askedEnd domain) ips).map recordBytes).sum ≤ bufSize ∧
        (begun bufSize (askedEnd domain) ips).length = ips.length % 65536 ∧
        (∀ label ∈ labelsOf domain, label ≠ []) ∧ (encodeDomainName domain).length ≤ kMaxNameLen)

theorem encodeDomainName_eq (domain : Bytes) : encodeDomainName domain = wireOf (askedLabels domain) := by
  have hlabel : encodeLabel = fun label ↦
      UInt8.ofNat (label.take kMaxLabelLen).length :: label.take kMaxLabelLen := by
    funext label
    rw [encodeLabel, length_take, Nat.min_comm]
  rw [encodeDomainName, hlabel, wireOf, askedLabels, flatMap_map]

theorem askedLabels_ne_nil_iff (domain : Bytes) :
    (∀ label ∈ askedLabels domain, label ≠ []) ↔ ∀ label ∈ labelsOf domain, label ≠ [] := by
  have htake (label : Bytes) : label.take kMaxLabelLen ≠ [] ↔ label ≠ [] := by
    simp [take_eq_nil_iff, kMaxLabelLen]
  simp only [askedLabels, forall_mem_map, htake]

theorem length_askedLabels_le (domain : Bytes) : ∀ label ∈ askedLabels domain, label.length ≤ 63 := by
  intro label hlabel
  obtain ⟨whole, -, rfl⟩ := mem_map.mp hlabel
  exact length_take_le _ _

theorem readU16_drop (data : Bytes) (pos : Nat) : readU16 data pos = readU16 (data.drop pos) 0 := by
  simp only [readU16, getD_eq_getElem?_getD, getElem?_drop, Nat.add_zero, Nat.zero_add]

theorem readU16_of_drop {data rest : Bytes} {pos : Nat} {number : UInt16}
    (hdrop : data.drop pos = bigEndian16 number ++ rest) : readU16 data pos = number := by
  rw [readU16_drop, hdrop, readU16_bigEndian16]

variable {data rest : Bytes} {pos behind : Nat}

/-- The parts of a record: a pointer to the question, eight bytes, the length of the data and the data. -/
theorem exists_buildRecord (inet : Inet) (leftover : Buffer) (cls : UInt16) (ttl : UInt32) (ip : Bytes) :
    ∃ (fixed rdata : Bytes), fixed.length = 8 ∧ rdata.length < 65536 ∧ recordBytes ip = 12 + rdata.length ∧
      buildRecord inet leftover cls ttl ip =
        [kLabelPointer, UInt8.ofNat kHeaderBytes] ++ fixed ++ bigEndian16 (UInt16.ofNat rdata.length) ++
          rdata := by
  unfold buildRecord recordBytes
  dsimp only
  split
  · refine ⟨bigEndian16 kTypeAaaa ++ bigEndian16 cls ++ bigEndian32 ttl,
      ((inet.pton6 (cString ip)).map Vector.toList).getD (slice leftover 0 16), rfl, ?_⟩
    have hlength :
        (((inet.pton6 (cString ip)).map Vector.toList).getD (slice leftover 0 16)).length = 16 := by
      cases inet.pton6 (cString ip) <;> simp [length_slice]
    rw [hlength]
    exact ⟨by decide, rfl, by simp⟩
  · refine ⟨bigEndian16 kTypeA ++ bigEndian16 cls ++ bigEndian32 ttl,
      ((inet.pton4 (cString ip)).map Vector.toList).getD (slice leftover 0 4), rfl, ?_⟩
    have hlength :
        (((inet.pton4 (cString ip)).map Vector.toList).getD (slice leftover 0 4)).length = 4 := by
      cases inet.pton4 (cString ip) <;> simp [length_slice]
    rw [hlength]
    exact ⟨by decide, rfl, by simp⟩

theorem recordAt_of_drop {name : Bytes} {inet : Inet} {leftover : Buffer} {cls : UInt16} {ttl : UInt32}
    {ip : Bytes} (hname : NameAt limits data 1 [] kHeaderBytes name behind)
    (hdrop : data.drop pos = buildRecord inet leftover cls ttl ip ++ rest) :
    ∃ record, recordAt data pos = some (record, pos + recordBytes ip) := by
  obtain ⟨fixed, rdata, hfixed, hshort, hlength, hrecord⟩ := exists_buildRecord inet leftover cls ttl ip
  rw [hrecord] at hdrop
  simp only [append_assoc] at hdrop
  have hfirst : data[pos]? = some kLabelPointer := by
    rw [← head?_drop, hdrop]
    rfl
  have hsecond : data[pos + 1]? = some (UInt8.ofNat kHeaderBytes) := by
    rw [← head?_drop, ← drop_drop, hdrop]
    rfl
  have hpointer : NameAt limits data 0 [] pos name (pos + 2) :=
    .pointer hfirst rfl hsecond (by decide) rfl hname
  have hbehind : data.drop (pos + 2 + 8) = bigEndian16 (UInt16.ofNat rdata.length) ++ (rdata ++ rest) := by
    rw [← drop_drop, ← drop_drop, hdrop, ← hfixed]
    simp
  have hrdlen : readU16 data (pos + 2 + 8) = UInt16.ofNat rdata.length := readU16_of_drop hbehind
  have hinside : pos + recordBytes ip ≤ data.length := by
    have hbytes := congrArg List.length hdrop
    simp only [length_drop, length_append, hfixed, length_cons, length_nil, bigEndian16]
      at hbytes
    omega
  have hnumber : (UInt16.ofNat rdata.length).toNat = rdata.length := by
    rw [UInt16.toNat_ofNat']
    exact Nat.mod_eq_of_lt hshort
  refine ⟨_, recordAt_eq_some_iff.mpr ⟨name, pos + 2, hpointer, ?_, hinside, rfl⟩⟩
  rw [hrdlen, hnumber, hlength, kRecordFixedBytes]
  omega

variable {bufSize : Nat}

theorem recordsEnd_of_drop {name : Bytes} {inet : Inet} {leftover : Buffer} {cls : UInt16} {ttl : UInt32}
    {ips : List Bytes} (hname : NameAt limits data 1 [] kHeaderBytes name behind)
    (hdrop : data.drop pos = buildRecords inet leftover bufSize cls ttl pos ips) :
    recordsEnd data (begun bufSize pos ips).length pos =
      some (pos + ((begun bufSize pos ips).map recordBytes).sum) := by
  induction ips generalizing pos with
  | nil => rfl
  | cons ip ips ih =>
    rw [buildRecords] at hdrop
    rw [begun]
    by_cases hfull : bufSize < pos + kHeaderBytes + kQuestionTailBytes
    · rw [if_pos hfull]
      rfl
    · rw [if_neg hfull] at hdrop ⊢
      dsimp only at hdrop
      rw [length_buildRecord] at hdrop
      obtain ⟨record, hrecord⟩ := recordAt_of_drop hname hdrop
      have hlater : data.drop (pos + recordBytes ip) =
          buildRecords inet leftover bufSize cls ttl (pos + recordBytes ip) ips := by
        rw [← drop_drop, hdrop, ← length_buildRecord inet (fun i ↦ leftover (pos + i)) cls ttl ip,
          drop_left]
      rw [length_cons, recordsEnd, hrecord]
      dsimp only
      rw [ih hlater, map_cons, sum_cons, Nat.add_assoc]

theorem lt_of_recordAt {record : AnswerRecord} (hrecord : recordAt data pos = some (record, behind)) :
    pos < behind := by
  obtain ⟨name, fixed, hname, rfl, -⟩ := recordAt_eq_some_iff.mp hrecord
  have hbehind := hname.lt.1
  omega

theorem le_of_recordsEnd {count : Nat} (hend : recordsEnd data count pos = some behind) : pos ≤ behind := by
  induction count generalizing pos with
  | zero => exact (Option.some.inj hend).le
  | succ count ih =>
    rw [recordsEnd] at hend
    cases hrecord : recordAt data pos with
    | none =>
      rw [hrecord] at hend
      cases hend
    | some found =>
      rw [hrecord] at hend
      exact (lt_of_recordAt hrecord).le.trans (ih hend)

theorem lt_of_recordsEnd {count : Nat} (hend : recordsEnd data (count + 1) pos = some behind) :
    pos < behind := by
  rw [recordsEnd] at hend
  cases hrecord : recordAt data pos with
  | none =>
    rw [hrecord] at hend
    cases hend
  | some found =>
    rw [hrecord] at hend
    exact (lt_of_recordAt hrecord).trans_le (le_of_recordsEnd hend)

theorem recordsEnd_inj {first second : Nat} (hfirst : recordsEnd data first pos = some behind)
    (hsecond : recordsEnd data second pos = some behind) : first = second := by
  induction first generalizing second pos with
  | zero =>
    cases hfirst
    cases second with
    | zero => rfl
    | succ second => exact absurd (lt_of_recordsEnd hsecond) (lt_irrefl _)
  | succ first ih =>
    cases second with
    | zero =>
      cases hsecond
      exact absurd (lt_of_recordsEnd hfirst) (lt_irrefl _)
    | succ second =>
      rw [recordsEnd] at hfirst hsecond
      cases hrecord : recordAt data pos with
      | none =>
        rw [hrecord] at hfirst
        cases hfirst
      | some found =>
        rw [hrecord] at hfirst hsecond
        rw [ih hfirst hsecond]

theorem length_buildRecords (inet : Inet) (leftover : Buffer) (bufSize : Nat) (cls : UInt16) (ttl : UInt32)
    (pos : Nat) (ips : List Bytes) :
    (buildRecords inet leftover bufSize cls ttl pos ips).length =
      ((begun bufSize pos ips).map recordBytes).sum := by
  induction ips generalizing pos with
  | nil => rfl
  | cons ip ips ih =>
    rw [buildRecords, begun]
    split
    · rfl
    · rw [length_append, length_buildRecord, ih, map_cons, sum_cons]

variable {question : Question}

theorem buildAnswer_eq (inet : Inet) (leftover : Buffer)
    (ips : List Bytes) (ttl : UInt32) (hroom : askedEnd question.domain ≤ bufSize) :
    buildAnswer inet leftover bufSize question ips ttl =
      header question.id (kFlagQr ||| kFlagRd ||| kFlagRa) (UInt16.ofNat ips.length) ++
        (encodeDomainName question.domain ++ (bigEndian16 question.type ++ (bigEndian16 question.cls ++
          buildRecords inet leftover bufSize question.cls ttl (askedEnd question.domain) ips))) := by
  have hlength : (namedHeader (kFlagQr ||| kFlagRd ||| kFlagRa) (UInt16.ofNat ips.length) question ++
      bigEndian16 question.type ++ bigEndian16 question.cls).length = askedEnd question.domain := by
    rw [length_append, length_append, length_namedHeader]
    rfl
  unfold buildAnswer
  rw [buildQuestion_of_room hroom, if_neg (by simp [bigEndian16]), hlength, namedHeader]
  simp only [append_assoc]

theorem length_buildAnswer (inet : Inet) (leftover : Buffer)
    (ips : List Bytes) (ttl : UInt32) (hroom : askedEnd question.domain ≤ bufSize) :
    (buildAnswer inet leftover bufSize question ips ttl).length =
      askedEnd question.domain + ((begun bufSize (askedEnd question.domain) ips).map recordBytes).sum := by
  have hheader : (header question.id (kFlagQr ||| kFlagRd ||| kFlagRa)
    (UInt16.ofNat ips.length)).length = kHeaderBytes := rfl
  rw [buildAnswer_eq inet leftover ips ttl hroom]
  simp only [length_append, hheader, length_buildRecords]
  simp only [bigEndian16, length_cons, length_nil, askedEnd, namedEnd, kQuestionTailBytes]
  omega

theorem isAnswer_iff (inet : Inet) (leftover : Buffer)
    (ips : List Bytes) (ttl : UInt32) (hroom : askedEnd question.domain ≤ bufSize) :
    IsAnswer question (buildAnswer inet leftover bufSize question ips ttl) ↔
      (begun bufSize (askedEnd question.domain) ips).length = ips.length % 65536 ∧
        (∀ label ∈ labelsOf question.domain, label ≠ []) ∧
        (encodeDomainName question.domain).length ≤ kMaxNameLen := by
  have hmessage := buildAnswer_eq inet leftover ips ttl hroom
  have hlength := length_buildAnswer inet leftover ips ttl hroom
  generalize buildAnswer inet leftover bufSize question ips ttl = message at hmessage hlength ⊢
  generalize hrecords : buildRecords inet leftover bufSize question.cls ttl (askedEnd question.domain) ips =
    records at hmessage
  have hname : message.drop kHeaderBytes = encodeDomainName question.domain ++
      (bigEndian16 question.type ++ (bigEndian16 question.cls ++ records)) := by
    rw [hmessage]
    rfl
  have htype : message.drop (namedEnd question.domain) =
      bigEndian16 question.type ++ (bigEndian16 question.cls ++ records) := by
    rw [namedEnd, ← drop_drop, hname, drop_left]
  have hcls : message.drop (namedEnd question.domain + 2) = bigEndian16 question.cls ++ records := by
    rw [← drop_drop, htype]
    rfl
  have hbody : message.drop (askedEnd question.domain) = records := by
    rw [askedEnd, ← drop_drop, htype]
    rfl
  have hheader (skipped : Nat) (number : UInt16) (more : Bytes)
      (hdrop : (header question.id (kFlagQr ||| kFlagRd ||| kFlagRa) (UInt16.ofNat ips.length)).drop skipped =
        bigEndian16 number ++ more)
      (hinside : skipped ≤ kHeaderBytes) : readU16 message skipped = number := by
    have hdropped : message.drop skipped = bigEndian16 number ++ (more ++ (encodeDomainName question.domain ++
        (bigEndian16 question.type ++ (bigEndian16 question.cls ++ records)))) := by
      rw [hmessage, drop_append_of_le_length hinside, hdrop, append_assoc]
    exact readU16_of_drop hdropped
  have hcount : (readU16 message kAnCountOffset).toNat = ips.length % 65536 := by
    rw [hheader _ (UInt16.ofNat ips.length) _ rfl (by decide), UInt16.toNat_ofNat']
  have hwalk {text : Bytes} {behind : Nat} (hnamed : NameAt limits message 1 [] kHeaderBytes text behind) :
      recordsEnd message (begun bufSize (askedEnd question.domain) ips).length (askedEnd question.domain) =
        some message.length := by
    rw [recordsEnd_of_drop hnamed (hbody.trans hrecords.symm), hlength]
  have hfits (length label : Nat) (hle : length + label ≤ kMaxNameLen) : limits.fits length label = true :=
    decide_eq_true hle
  constructor
  · rintro ⟨-, -, -, behind, hlabels, hshort, -, -, hend⟩
    have hbehind := hlabels.behind_eq
    rw [← encodeDomainName_eq] at hbehind
    obtain rfl := hbehind
    have hlong : (encodeDomainName question.domain).length ≤ kMaxNameLen := by omega
    obtain ⟨text, hnamed⟩ := hlabels.nameAt hfits 1 []
      (by rw [← encodeDomainName_eq, length_nil]; omega)
    rw [hcount] at hend
    exact ⟨recordsEnd_inj (hwalk hnamed) hend, (askedLabels_ne_nil_iff _).mp hlabels.ne_nil, hlong⟩
  · rintro ⟨hnumber, hsome, hlong⟩
    have hvalid : ∀ label ∈ askedLabels question.domain, label ≠ [] ∧ label.length ≤ 63 := fun label hlabel ↦
      ⟨(askedLabels_ne_nil_iff _).mpr hsome label hlabel, length_askedLabels_le _ label hlabel⟩
    have hlabels := labelsAt_of_drop hvalid (by rw [hname, encodeDomainName_eq])
    rw [← encodeDomainName_eq] at hlabels
    obtain ⟨text, hnamed⟩ := hlabels.nameAt hfits 1 []
      (by rw [← encodeDomainName_eq, length_nil]; omega)
    refine ⟨hheader _ _ _ rfl (by decide), hheader _ _ (bigEndian16 0) rfl (by decide),
      hheader _ _ [] rfl (by decide),
      _, hlabels, by omega, readU16_of_drop htype, readU16_of_drop hcls, ?_⟩
    rw [hcount, ← hnumber]
    exact hwalk hnamed

theorem top_buildNxdomainInto (buffer : Buffer) (bufSize : Nat) (question : Question) :
    (buildNxdomainInto buffer bufSize question).2.top ≤ bufSize ↔
      bufSize < kHeaderBytes ∨ namedEnd question.domain ≤ bufSize := by
  have hcases := buildQuestionInto_cases buffer bufSize (kFlagQr ||| kFlagRd ||| kFlagRa ||| kRcodeNxdomain) 0
    question
  unfold buildNxdomainInto
  rcases hcases with ⟨hheader, hinto, -⟩ | ⟨hheader, htail, hinto, -⟩ | ⟨hheader, hroom, hinto, -⟩
  · rw [hinto]
    exact ⟨fun _ ↦ .inl hheader, fun _ ↦ Nat.zero_le _⟩
  · rw [hinto]
    simp only [Writer.top_put, Writer.top_on, Writer.pos_on, length_namedHeader]
    omega
  · rw [hinto]
    simp only [Writer.top_put, Writer.top_on, Writer.pos_on, length_append, length_namedHeader]
    simp only [bigEndian16, length_cons, length_nil]
    simp only [askedEnd, kQuestionTailBytes] at hroom
    omega

/-- When the builders stay within the buffer and `buildAnswer` gives an answer. -/
theorem answers_fit_iff (inet : Inet) (ipAddr : Nat → V4) (buffer : Buffer) (bufSize : Nat)
    (question : Question) (ips : List Bytes) (ttl : UInt32) :
    Fits inet ipAddr buffer bufSize question ips ttl ↔
      bufSize < kHeaderBytes ∨ Fitting bufSize question.domain ips := by
  have hcases := buildQuestionInto_cases buffer bufSize (kFlagQr ||| kFlagRd ||| kFlagRa)
    (UInt16.ofNat ips.length) question
  have hnxdomain := top_buildNxdomainInto buffer bufSize question
  rcases hcases with ⟨hheader, hinto, -⟩ | ⟨hheader, htail, hinto, -⟩ | ⟨hheader, hroom, hinto, -⟩
  · have hanswer : buildAnswerInto inet ipAddr buffer bufSize question ips ttl = (0, Writer.on buffer) := by
      rw [buildAnswerInto, hinto]
    refine ⟨fun _ ↦ .inl hheader, fun _ ↦ ⟨hnxdomain.mpr (.inl hheader), ?_, ?_⟩⟩
    · rw [hanswer]
      exact Nat.zero_le _
    · rw [hanswer]
      exact fun hsome ↦ absurd hsome (lt_irrefl 0)
  · have hanswer : buildAnswerInto inet ipAddr buffer bufSize question ips ttl =
        (0, (Writer.on buffer).put (namedHeader (kFlagQr ||| kFlagRd ||| kFlagRa) (UInt16.ofNat ips.length)
          question)) := by
      rw [buildAnswerInto, hinto]
    constructor
    · rintro ⟨hfits, -, -⟩
      have hnamed := (hnxdomain.mp hfits).resolve_left (not_lt.mpr hheader)
      exact .inr ⟨hnamed, fun hasked ↦ absurd hasked (not_le.mpr htail)⟩
    · intro hcondition
      have hnamed := (hcondition.resolve_left (not_lt.mpr hheader)).1
      refine ⟨hnxdomain.mpr (.inr hnamed), ?_, ?_⟩
      · rw [hanswer]
        simp only [Writer.top_put, Writer.top_on, Writer.pos_on, length_namedHeader]
        omega
      · rw [hanswer]
        exact fun hsome ↦ absurd hsome (lt_irrefl 0)
  · obtain ⟨leftover, hbytes⟩ := buildAnswerInto_bytes inet ipAddr buffer bufSize question ips ttl
    have htop := top_buildAnswerInto inet ipAddr buffer ips ttl hroom
    have hlength := length_buildAnswer inet leftover ips ttl hroom
    rw [← hbytes, length_slice] at hlength
    have hwhole := isAnswer_iff inet leftover ips ttl hroom
    rw [← hbytes] at hwhole
    constructor
    · rintro ⟨-, -, hmessage⟩
      have hsome : 0 < (buildAnswerInto inet ipAddr buffer bufSize question ips ttl).1 := by
        rw [hlength, askedEnd, kQuestionTailBytes]
        omega
      obtain ⟨hinside, hisAnswer⟩ := hmessage hsome
      have hnamed : namedEnd question.domain ≤ bufSize := (Nat.le_add_right _ _).trans hroom
      exact .inr ⟨hnamed, fun _ ↦ ⟨hlength ▸ hinside, hwhole.mp hisAnswer⟩⟩
    · intro hcondition
      obtain ⟨hnamed, hasked⟩ := hcondition.resolve_left (not_lt.mpr hheader)
      obtain ⟨hrecords, hrest⟩ := hasked hroom
      have hinside : (buildAnswerInto inet ipAddr buffer bufSize question ips ttl).1 ≤ bufSize := by omega
      exact ⟨hnxdomain.mpr (.inr hnamed), htop.trans hinside, fun _ ↦ ⟨hinside, hwhole.mpr hrest⟩⟩

def loopbackInet : Inet where
  pton4 := quadInet.pton4
  ntop4 := quadInet.ntop4
  pton6 text := if text = ascii "::1" then some #v[0, 0, 0, 0, 0, 0, 0, 0, 0, 0, 0, 0, 0, 0, 0, 1] else none
  ntop6 _ := ascii "::1"

def questionFor (domain : Bytes) : Question := ⟨domain, kTypeA, 1, 7⟩

def FitsAt (bufSize : Nat) (domain : Bytes) (ips : List Bytes) : Prop :=
  Fits loopbackInet (fun _ ↦ #v[0, 0, 0, 0]) (fun _ ↦ 0) bufSize (questionFor domain) ips 60

/-- How far `buildAnswer` writes there. -/
def writtenAt (bufSize : Nat) (domain : Bytes) (ips : List Bytes) : Nat :=
  (buildAnswerInto loopbackInet (fun _ ↦ #v[0, 0, 0, 0]) (fun _ ↦ 0) bufSize (questionFor domain) ips
    60).2.top

theorem fitting_of_fitsAt {domain : Bytes} {ips : List Bytes}
    (hfits : FitsAt bufSize domain ips) (hheader : kHeaderBytes ≤ bufSize) : Fitting bufSize domain ips :=
  ((answers_fit_iff _ _ _ _ _ _ _).mp hfits).resolve_left (not_lt.mpr hheader)

/-- A name and an IPv6 record are written behind the buffer, two records are counted where one is there, and
the domain "." gives no message with a question. -/
theorem answers_do_not_fit : (writtenAt 12 (ascii "a") [] = 15 ∧ ¬FitsAt 12 (ascii "a") []) ∧
      (writtenAt 40 (ascii "a") [ascii "::1"] = 47 ∧ ¬FitsAt 40 (ascii "a") [ascii "::1"]) ∧
      ¬FitsAt 40 (ascii "a") [ascii "1.2.3.4", ascii "1.2.3.5"] ∧ ¬FitsAt kMaxMsgSize (ascii ".") [] := by
  refine ⟨⟨?_, fun hfits ↦ ?_⟩, ⟨?_, fun hfits ↦ ?_⟩, fun hfits ↦ ?_, fun hfits ↦ ?_⟩
  · decide +kernel
  · exact absurd (fitting_of_fitsAt hfits (by decide)).1 (by decide)
  · decide +kernel
  · have hrecords := (fitting_of_fitsAt hfits (by decide)).2 (by decide)
    exact absurd hrecords.1 (by decide)
  · have hrecords := (fitting_of_fitsAt hfits (by decide)).2 (by decide)
    exact absurd hrecords.2.1 (by decide)
  · have hrecords := (fitting_of_fitsAt hfits (by decide)).2 (by decide)
    exact hrecords.2.2.1 [] (by decide) rfl

end DhcpServer.Dns.Message
