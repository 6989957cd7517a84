import DhcpServer.Dns.UpstreamAnswers
import DhcpServer.Library.Reads
import DhcpServer.Library.WireNames

/-!
# Which answers of a datagram are read

The answer section is read up to the first question or record whose name is malformed or that runs past the
end. `parseForwardAnswer` stops at the end, but not at a malformed name: the offset stays, or goes behind the
first pointer of the name, and what stands there is taken for a record. A lifetime of 0 is lost behind the
next one.
-/

/-!
## What is read of an upstream answer

The walk of `parseForwardAnswer` with every byte it reads taken out of the datagram as received. It comes to
its end for every datagram, and never asks for a byte behind it.
-/

namespace DhcpServer.Dns.Message

open Library Reads Option

open InternalCache (Inet)

variable {data : Bytes} {pos : Nat}

theorem wordAt_eq_readU16 (hinside : pos + 2 ≤ data.length) : wordAt data pos = some (readU16 data pos) :=
  wordAt_eq hinside

theorem longAt_eq_readU32 (hinside : pos + 4 ≤ data.length) : longAt data pos = some (readU32 data pos) :=
  longAt_eq hinside

/-- `decodeLabels` with its reads. -/
def decodeLabelsRead (data : Bytes) (pos jumps : Nat) (name : Bytes) (behind : Option Nat) :
    Option (Bytes × Option Nat) :=
  if data.length ≤ pos then some ([], behind)
  else do
    let byte ← data[pos]?
    if byte = 0 then some (name, some (behind.getD (pos + 1)))
    else if byte &&& kMaskLabelType = kLabelPointer then
      if data.length ≤ pos + 1 then some ([], behind)
      else
        let low ← data[pos + 1]?
        let behind := some (behind.getD (pos + 2))
        let target := (byte &&& kMaskPointerOffset).toNat <<< 8 ||| low.toNat
        if kMaxPointers < jumps + 1 then some ([], behind)
        else decodeLabelsRead data target (jumps + 1) name behind
    else if byte &&& kMaskLabelType ≠ 0 then some ([], behind)
    else
      let labelLen := byte.toNat
      if data.length - (pos + 1) < labelLen then some ([], behind)
      else if kMaxNameLen < name.length + labelLen then some ([], behind)
      else
        let separator := if name.isEmpty then [] else [dot]
        let label ← bytesAt data (pos + 1) labelLen
        decodeLabelsRead data (pos + 1 + labelLen) jumps (name ++ separator ++ label) behind
termination_by (kMaxPointers + 1 - jumps) * (data.length + 1) + (data.length - pos)
decreasing_by
  · -- as in `decodeLabels`
    rename_i hpointers
    obtain ⟨left, hleft⟩ : ∃ left, kMaxPointers + 1 - jumps = left + 1 := ⟨kMaxPointers - jumps, by omega⟩
    rw [hleft, show kMaxPointers + 1 - (jumps + 1) = left by omega, Nat.succ_mul]
    omega
  · omega

def decodeDomainNameRead (data : Bytes) (offset : Nat) : Option (Bytes × Nat) := do
  let (name, behind) ← decodeLabelsRead data offset 0 [] none
  some (name, behind.getD offset)

theorem decodeLabelsRead_eq (data : Bytes) (pos jumps : Nat) (name : Bytes) (behind : Option Nat) :
    decodeLabelsRead data pos jumps name behind = some (decodeLabels data pos jumps name behind) := by
  fun_induction decodeLabels data pos jumps name behind with
  | case1 pos jumps name behind hend => rw [decodeLabelsRead, if_pos hend]
  | case2 pos jumps name behind hinside byte hzero =>
    have hbyte : data[pos]? = some byte := byteAt_eq (not_le.mp hinside)
    rw [decodeLabelsRead, if_neg hinside, hbyte]
    exact if_pos hzero
  | case3 pos jumps name behind hinside byte hzero hpointer hend =>
    have hbyte : data[pos]? = some byte := byteAt_eq (not_le.mp hinside)
    rw [decodeLabelsRead, if_neg hinside, hbyte]
    simp only [bind_eq_bind, bind_some, if_neg hzero, if_pos hpointer, if_pos hend]
  | case4 pos jumps name behind hinside byte hzero hpointer hend following hmany =>
    have hbyte : data[pos]? = some byte := byteAt_eq (not_le.mp hinside)
    rw [decodeLabelsRead, if_neg hinside, hbyte]
    simp only [bind_eq_bind, bind_some, if_neg hzero, if_pos hpointer, if_neg hend,
      byteAt_eq (not_le.mp hend), if_pos hmany, following]
  | case5 pos jumps name behind hinside byte hzero hpointer hend following target hfew ih =>
    have hbyte : data[pos]? = some byte := byteAt_eq (not_le.mp hinside)
    rw [decodeLabelsRead, if_neg hinside, hbyte]
    simp only [bind_eq_bind, bind_some, if_neg hzero, if_pos hpointer, if_neg hend,
      byteAt_eq (not_le.mp hend), if_neg hfew]
    exact ih
  | case6 pos jumps name behind hinside byte hzero hpointer hreserved =>
    have hbyte : data[pos]? = some byte := byteAt_eq (not_le.mp hinside)
    rw [decodeLabelsRead, if_neg hinside, hbyte]
    simp only [bind_eq_bind, bind_some, if_neg hzero, if_neg hpointer, if_pos hreserved]
  | case7 pos jumps name behind hinside byte hzero hpointer hlabel labelLen hlong =>
    have hbyte : data[pos]? = some byte := byteAt_eq (not_le.mp hinside)
    rw [decodeLabelsRead, if_neg hinside, hbyte]
    simp only [bind_eq_bind, bind_some, if_neg hzero, if_neg hpointer, if_neg hlabel]
    exact if_pos hlong
  | case8 pos jumps name behind hinside byte hzero hpointer hlabel labelLen hinsideLabel hlong =>
    have hbyte : data[pos]? = some byte := byteAt_eq (not_le.mp hinside)
    rw [decodeLabelsRead, if_neg hinside, hbyte]
    simp only [bind_eq_bind, bind_some, if_neg hzero, if_neg hpointer, if_neg hlabel]
    exact (if_neg hinsideLabel).trans (if_pos hlong)
  | case9 pos jumps name behind hinside byte hzero hpointer hlabel labelLen hinsideLabel hshort separator
      label ih =>
    have hbyte : data[pos]? = some byte := byteAt_eq (not_le.mp hinside)
    have hbytes : bytesAt data (pos + 1) labelLen = some label := bytesAt_eq (by omega)
    rw [decodeLabelsRead, if_neg hinside, hbyte]
    simp only [bind_eq_bind, bind_some, if_neg hzero, if_neg hpointer, if_neg hlabel]
    refine (if_neg hinsideLabel).trans ((if_neg hshort).trans ?_)
    rw [show bytesAt data (pos + 1) byte.toNat = some label from hbytes]
    exact ih

theorem decodeDomainNameRead_eq (data : Bytes) (offset : Nat) :
    decodeDomainNameRead data offset = some (decodeDomainName data offset) := by
  rw [decodeDomainNameRead, decodeLabelsRead_eq]
  rfl

/-- `skipQuestions` with its reads. -/
def skipQuestionsRead (data : Bytes) : Nat → Nat → Option Nat
  | 0, offset => some offset
  | count + 1, offset =>
    if offset < data.length then do
      let (_, behind) ← decodeDomainNameRead data offset
      skipQuestionsRead data count (behind + kQuestionTailBytes)
    else some offset

/-- The second loop with its reads. The source reads the data of an address record only. -/
def walkRecordsRead (inet : Inet) (data : Bytes) : Nat → Nat → List Bytes × UInt32 →
    Option (List Bytes × UInt32)
  | 0, _, found => some found
  | count + 1, offset, found =>
    if data.length < offset + kRecordFixedBytes then some found
    else do
      let (_, fixed) ← decodeDomainNameRead data offset
      if data.length < fixed + kRecordFixedBytes then some found
      else
        let type ← wordAt data fixed
        let ttl ← longAt data (fixed + 4)
        let rdlen ← wordAt data (fixed + 8)
        let start := fixed + kRecordFixedBytes
        if data.length < start + rdlen.toNat then some found
        else
          let rdata ← bytesAt data start rdlen.toNat
          walkRecordsRead inet data count (start + rdlen.toNat) (collectAnswer inet found ⟨type, ttl, rdata⟩)

def parseForwardAnswerRead (inet : Inet) (data : Bytes) : Option (List Bytes × UInt32) :=
  if data.length < kHeaderBytes then some ([], 0)
  else do
    let qdcount ← wordAt data kQdCountOffset
    let ancount ← wordAt data kAnCountOffset
    let offset ← skipQuestionsRead data qdcount.toNat kHeaderBytes
    walkRecordsRead inet data ancount.toNat offset ([], 0)

theorem skipQuestionsRead_eq (data : Bytes) (count offset : Nat) :
    skipQuestionsRead data count offset = some (skipQuestions data count offset) := by
  induction count generalizing offset with
  | zero => rfl
  | succ count ih =>
    rw [skipQuestionsRead, skipQuestions, decodeDomainNameRead_eq]
    split
    · exact ih _
    · rfl

theorem walkRecordsRead_eq (inet : Inet) (data : Bytes) (count offset : Nat) (found : List Bytes × UInt32) :
    walkRecordsRead inet data count offset found =
      some ((walkRecords data count offset).foldl (collectAnswer inet) found) := by
  induction count generalizing offset found with
  | zero => rfl
  | succ count ih =>
    rw [walkRecordsRead, walkRecords, decodeDomainNameRead_eq]
    by_cases hroom : data.length < offset + kRecordFixedBytes
    · rw [if_pos hroom, if_pos hroom]
      rfl
    · rw [if_neg hroom, if_neg hroom]
      simp only [bind_eq_bind, bind_some]
      by_cases hfixed : data.length < (decodeDomainName data offset).2 + kRecordFixedBytes
      · rw [if_pos hfixed, if_pos hfixed]
        rfl
      · have hlength : (decodeDomainName data offset).2 + 10 ≤ data.length := not_lt.mp hfixed
        rw [if_neg hfixed, if_neg hfixed, wordAt_eq_readU16 (by omega), longAt_eq_readU32 (by omega),
          wordAt_eq_readU16 (by omega)]
        simp only [bind_some]
        split
        · rfl
        · rw [bytesAt_eq (by omega)]
          exact ih _ _

theorem parseForwardAnswerRead_eq (inet : Inet) (data : Bytes) :
    parseForwardAnswerRead inet data = some (parseForwardAnswer inet data) := by
  unfold parseForwardAnswerRead parseForwardAnswer answerRecords
  by_cases hheader : data.length < kHeaderBytes
  · rw [if_pos hheader, if_pos hheader]
    rfl
  · rw [if_neg hheader, if_neg hheader]
    have hlength : 12 ≤ data.length := not_lt.mp hheader
    rw [wordAt_eq_readU16 (by simp only [kQdCountOffset]; omega),
      wordAt_eq_readU16 (by simp only [kAnCountOffset]; omega)]
    simp only [bind_eq_bind, bind_some, skipQuestionsRead_eq]
    exact walkRecordsRead_eq inet data _ _ _

end DhcpServer.Dns.Message

namespace DhcpServer.Dns.Message

open Library WireNames

open InternalCache (Inet)
open ForwardSlots (quadInet)

/-! ## The whole records -/

/-- What `decodeDomainName` puts up with. -/
def limits : Limits where
  pointers := kMaxPointers
  admits _ _ := true
  fits length label := length + label ≤ kMaxNameLen

/-- The place behind the name at a place, if it is a name. -/
def nameEnd (data : Bytes) (offset : Nat) : Option Nat := (readName limits data 0 [] offset).map Prod.snd

/-- The record at a place and the place behind it: its name is one and its data does not run past the
end. -/
def recordAt (data : Bytes) (offset : Nat) : Option (AnswerRecord × Nat) :=
  match nameEnd data offset with
  | none => none
  | some fixed =>
    let rdlen := (readU16 data (fixed + 8)).toNat
    let start := fixed + kRecordFixedBytes
    if data.length < start + rdlen then none
    else some (⟨readU16 data fixed, readU32 data (fixed + 4), (data.drop start).take rdlen⟩, start + rdlen)

/-- The place behind as many questions, if all are whole. -/
def questionsEnd (data : Bytes) : Nat → Nat → Option Nat
  | 0, offset => some offset
  | count + 1, offset =>
    match nameEnd data offset with
    | none => none
    | some behind =>
      if data.length < behind + kQuestionTailBytes then none
      else questionsEnd data count (behind + kQuestionTailBytes)

/-- As many records, up to the first one that is not whole. -/
def wholeRecords (data : Bytes) : Nat → Nat → List AnswerRecord
  | 0, _ => []
  | count + 1, offset =>
    match recordAt data offset with
    | none => []
    | some (record, behind) => record :: wholeRecords data count behind

/-- The records of the longest well-formed prefix of the answer section. -/
def prefixRecords (data : Bytes) : List AnswerRecord :=
  if data.length < kHeaderBytes then []
  else
    match questionsEnd data (readU16 data kQdCountOffset).toNat kHeaderBytes with
    | none => []
    | some offset => wholeRecords data (readU16 data kAnCountOffset).toNat offset

/-- What the walk takes for records from the first one on that is not whole. -/
def misreadFrom (data : Bytes) : Nat → Nat → List AnswerRecord
  | 0, _ => []
  | count + 1, offset =>
    match recordAt data offset with
    | none => walkRecords data (count + 1) offset
    | some (_, behind) => misreadFrom data count behind

/-- What the walk takes for records behind the well-formed prefix. -/
def misreadRecords (data : Bytes) : List AnswerRecord :=
  if data.length < kHeaderBytes then []
  else
    match questionsEnd data (readU16 data kQdCountOffset).toNat kHeaderBytes with
    | none =>
      walkRecords data (readU16 data kAnCountOffset).toNat
        (skipQuestions data (readU16 data kQdCountOffset).toNat kHeaderBytes)
    | some offset => misreadFrom data (readU16 data kAnCountOffset).toNat offset

/-- The lifetimes of the address records of the well-formed prefix. -/
def lifetimes (data : Bytes) : List UInt32 :=
  ((prefixRecords data).filter AnswerRecord.isAddress).map AnswerRecord.ttl

/-- The addresses found are those of the well-formed prefix, and the lifetime is the least of theirs. -/
structure ReadExactly (inet : Inet) (data : Bytes) (found : List Bytes × UInt32) : Prop where
  addresses : found.1 = (prefixRecords data).filterMap (AnswerRecord.ip inet)
  lifetime : lifetimes data ≠ [] → found.2 ∈ lifetimes data ∧ ∀ ttl ∈ lifetimes data, found.2 ≤ ttl

variable {data name text : Bytes} {jumps pos offset behind : Nat}

theorem decodeLabels_of_nameAt (hname : NameAt limits data jumps text pos name behind) (known : Option Nat) :
    decodeLabels data pos jumps text known = (name, some (known.getD behind)) := by
  induction hname generalizing known with
  | root hroot =>
    obtain ⟨hinside, hbyte⟩ := getD_of_byteAt hroot
    rw [decodeLabels, if_neg (not_le.mpr hinside)]
    simp only [hbyte, if_true]
  | @pointer jumps text pos first second name behind hfirst hpointer hsecond hjumps _ _ ih =>
    have htype : first &&& kMaskLabelType = kLabelPointer := hpointer
    obtain ⟨hinside, hbyte⟩ := getD_of_byteAt hfirst
    obtain ⟨hsecondInside, hsecondByte⟩ := getD_of_byteAt hsecond
    rw [decodeLabels, if_neg (not_le.mpr hinside)]
    simp only [hbyte, hsecondByte]
    rw [if_neg, if_pos htype, if_neg (not_le.mpr hsecondInside), if_neg (not_lt.mpr hjumps)]
    · exact ih _
    · rintro rfl
      exact absurd htype (by decide)
  | @label jumps text pos byte name behind hbyte hzero hlabel hinside hfits _ ih =>
    obtain ⟨hpos, heq⟩ := getD_of_byteAt hbyte
    have hroom : text.length + byte.toNat ≤ kMaxNameLen := of_decide_eq_true hfits
    have htype : byte &&& kMaskLabelType = 0 := hlabel
    rw [decodeLabels, if_neg (not_le.mpr hpos)]
    simp only [heq]
    rw [if_neg hzero, if_neg (by rw [htype]; decide), if_neg (not_not.mpr htype), if_neg (by omega),
      if_neg (by omega)]
    exact ih known

theorem decodeDomainName_of_nameEnd (hname : nameEnd data offset = some behind) :
    (decodeDomainName data offset).2 = behind := by
  obtain ⟨⟨name, behind⟩, hread, rfl⟩ := Option.map_eq_some_iff.mp hname
  have hlabels := decodeLabels_of_nameAt (nameAt_of_readName hread) none
  rw [decodeDomainName, hlabels]
  rfl

theorem lt_of_nameEnd (hname : nameEnd data offset = some behind) :
    offset < behind ∧ offset < data.length := by
  obtain ⟨⟨name, behind⟩, hread, rfl⟩ := Option.map_eq_some_iff.mp hname
  exact (nameAt_of_readName hread).lt

theorem recordAt_eq_some_iff {record : AnswerRecord} : recordAt data offset = some (record, behind) ↔
      ∃ name fixed, NameAt limits data 0 [] offset name fixed ∧
        behind = fixed + kRecordFixedBytes + (readU16 data (fixed + 8)).toNat ∧ behind ≤ data.length ∧
        record = ⟨readU16 data fixed, readU32 data (fixed + 4),
          (data.drop (fixed + kRecordFixedBytes)).take (readU16 data (fixed + 8)).toNat⟩ := by
  unfold recordAt nameEnd
  cases hread : readName limits data 0 [] offset with
  | none =>
    simp only [Option.map_none, reduceCtorEq, false_iff, not_exists, not_and]
    intro name fixed hname
    cases hread.symm.trans (readName_of_nameAt hname)
  | some found =>
    obtain ⟨name, fixed⟩ := found
    simp only [Option.map_some]
    constructor
    · intro hrecord
      split_ifs at hrecord with hlong
      cases hrecord
      exact ⟨name, fixed, nameAt_of_readName hread, rfl, not_lt.mp hlong, rfl⟩
    · rintro ⟨other, otherFixed, hname, rfl, hinside, rfl⟩
      obtain ⟨rfl, rfl⟩ := Prod.mk.inj (Option.some.inj (hread.symm.trans (readName_of_nameAt hname)))
      exact if_neg (not_lt.mpr hinside)

theorem walkRecords_of_recordAt {record : AnswerRecord}
    (hrecord : recordAt data offset = some (record, behind)) (count : Nat) :
    walkRecords data (count + 1) offset = record :: walkRecords data count behind := by
  unfold recordAt at hrecord
  cases hname : nameEnd data offset with
  | none =>
    rw [hname] at hrecord
    cases hrecord
  | some fixed =>
    rw [hname] at hrecord
    dsimp only at hrecord
    split_ifs at hrecord with hlong
    cases hrecord
    have hbehind := (lt_of_nameEnd hname).1
    rw [walkRecords, if_neg (by omega), decodeDomainName_of_nameEnd hname]
    rw [if_neg (by omega), if_neg hlong]

theorem walkRecords_eq (data : Bytes) (count offset : Nat) :
    walkRecords data count offset = wholeRecords data count offset ++ misreadFrom data count offset := by
  induction count generalizing offset with
  | zero => rfl
  | succ count ih =>
    rw [wholeRecords, misreadFrom]
    cases hrecord : recordAt data offset with
    | none => rfl
    | some found =>
      obtain ⟨record, behind⟩ := found
      rw [walkRecords_of_recordAt hrecord, ih]
      rfl

theorem skipQuestions_of_questionsEnd {count : Nat} (hend : questionsEnd data count offset = some behind) :
    skipQuestions data count offset = behind := by
  induction count generalizing offset with
  | zero => exact Option.some.inj hend
  | succ count ih =>
    rw [questionsEnd] at hend
    cases hname : nameEnd data offset with
    | none =>
      rw [hname] at hend
      cases hend
    | some fixed =>
      rw [hname] at hend
      dsimp only at hend
      split_ifs at hend
      rw [skipQuestions, if_pos (lt_of_nameEnd hname).2, decodeDomainName_of_nameEnd hname]
      exact ih hend

theorem answerRecords_eq (data : Bytes) : answerRecords data = prefixRecords data ++ misreadRecords data := by
  unfold answerRecords prefixRecords misreadRecords
  split
  · rfl
  · split
    · rfl
    · rename_i offset hend
      rw [skipQuestions_of_questionsEnd hend]
      exact walkRecords_eq data _ offset

/-- One lifetime more; 0 stands for none yet. -/
def leastLifetime (least ttl : UInt32) : UInt32 := if least = 0 ∨ ttl < least then ttl else least

theorem parseForwardAnswer_ttl (inet : Inet) (data : Bytes) : (parseForwardAnswer inet data).2 =
      ((addressRecords data).map AnswerRecord.ttl).foldl leastLifetime 0 := by
  have hfold (records : List AnswerRecord) (found : List Bytes × UInt32) :
      (records.foldl (collectAnswer inet) found).2 =
        ((records.filter AnswerRecord.isAddress).map AnswerRecord.ttl).foldl leastLifetime found.2 := by
    induction records generalizing found with
    | nil => rfl
    | cons record records ih =>
      rw [List.foldl_cons, ih, collectAnswer, List.filter_cons]
      cases hip : record.ip inet with
      | none =>
        have haddress : record.isAddress = false := ip_eq_none_iff.mp hip
        rw [haddress]
        rfl
      | some ip =>
        have haddress : record.isAddress :=
          (Bool.not_eq_false _).mp fun hother ↦
            Option.some_ne_none ip (hip.symm.trans (ip_eq_none_iff.mpr hother))
        rw [if_pos haddress]
        rfl
  exact hfold (answerRecords data) ([], 0)

theorem leastLifetime_eq_zero_iff (least ttl : UInt32) : leastLifetime least ttl = 0 ↔ ttl = 0 := by
  unfold leastLifetime
  split_ifs with hnew
  · rfl
  · rw [not_or, UInt32.not_lt] at hnew
    constructor
    · exact fun hzero ↦ absurd hzero hnew.1
    · rintro rfl
      exact absurd (UInt32.le_antisymm hnew.2 (UInt32.zero_le)) hnew.1

theorem leastLifetime_spec {least : UInt32} (ttl : UInt32) (hleast : least ≠ 0) :
    (leastLifetime least ttl = least ∨ leastLifetime least ttl = ttl) ∧
      leastLifetime least ttl ≤ least ∧ leastLifetime least ttl ≤ ttl := by
  unfold leastLifetime
  split_ifs with hnew
  · exact ⟨.inr rfl, UInt32.le_of_lt (hnew.resolve_left hleast), UInt32.le_refl _⟩
  · exact ⟨.inl rfl, UInt32.le_refl _, UInt32.not_lt.mp (not_or.mp hnew).2⟩

theorem foldl_leastLifetime_of_ne {least : UInt32} {ttls : List UInt32} (hleast : least ≠ 0)
    (hzero : 0 ∉ ttls) :
    ttls.foldl leastLifetime least ∈ least :: ttls ∧
      ∀ ttl ∈ least :: ttls, ttls.foldl leastLifetime least ≤ ttl := by
  induction ttls generalizing least with
  | nil => simp
  | cons first ttls ih =>
    rw [List.mem_cons, not_or] at hzero
    have hnext : leastLifetime least first ≠ 0 := fun hnothing ↦
      hzero.1 ((leastLifetime_eq_zero_iff least first).mp hnothing).symm
    obtain ⟨hmem, hbelow⟩ := ih hnext hzero.2
    have hnew := hbelow _ List.mem_cons_self
    have hstep := leastLifetime_spec first hleast
    rw [List.foldl_cons]
    constructor
    · rcases List.mem_cons.mp hmem with heq | hlater
      · rw [heq]
        rcases hstep.1 with hold | hfirst <;> simp [*]
      · exact List.mem_cons_of_mem _ (List.mem_cons_of_mem _ hlater)
    · refine List.forall_mem_cons.mpr ⟨UInt32.le_trans hnew hstep.2.1, List.forall_mem_cons.mpr ⟨?_, ?_⟩⟩
      · exact UInt32.le_trans hnew hstep.2.2
      · exact fun ttl httl ↦ hbelow ttl (List.mem_cons_of_mem _ httl)

theorem foldl_leastLifetime_iff {ttls : List UInt32} (hsome : ttls ≠ []) :
    ttls.foldl leastLifetime 0 ∈ ttls ∧ (∀ ttl ∈ ttls, ttls.foldl leastLifetime 0 ≤ ttl) ↔
      0 ∉ ttls ∨ ttls.getLast? = some 0 := by
  -- the last lifetime decides whether the result is 0
  have hlast : ttls.foldl leastLifetime 0 = 0 ↔ ttls.getLast? = some 0 := by
    obtain ⟨init, last, rfl⟩ := (List.eq_nil_or_concat ttls).resolve_left hsome
    rw [List.concat_eq_append, List.foldl_append, List.getLast?_concat, Option.some_inj]
    exact leastLifetime_eq_zero_iff _ last
  constructor
  · rintro ⟨-, hbelow⟩
    refine or_iff_not_imp_left.mpr fun hzero ↦ hlast.mp ?_
    exact UInt32.le_zero_iff.mp (hbelow 0 (not_not.mp hzero))
  · rintro (hzero | hend)
    · cases ttls with
      | nil => exact absurd rfl hsome
      | cons first ttls =>
        rw [List.mem_cons, not_or] at hzero
        exact foldl_leastLifetime_of_ne (Ne.symm hzero.1) hzero.2
    · rw [hlast.mpr hend]
      exact ⟨List.mem_of_getLast? hend, fun ttl _ ↦ UInt32.zero_le⟩

theorem filterMap_ip_eq_nil_iff {inet : Inet} {records : List AnswerRecord} :
    records.filterMap (AnswerRecord.ip inet) = [] ↔ ∀ record ∈ records, record.isAddress = false := by
  simp only [List.filterMap_eq_nil_iff, ip_eq_none_iff]

theorem readExactly_iff (inet : Inet) (data : Bytes) :
    ReadExactly inet data (parseForwardAnswer inet data) ↔
      (∀ record ∈ misreadRecords data, record.isAddress = false) ∧
        (0 ∉ lifetimes data ∨ (lifetimes data).getLast? = some 0) := by
  have hips : (parseForwardAnswer inet data).1 =
      (prefixRecords data).filterMap (AnswerRecord.ip inet) ++
        (misreadRecords data).filterMap (AnswerRecord.ip inet) := by
    rw [parseForwardAnswer_ips, answerRecords_eq, List.filterMap_append]
  have hmisread : (parseForwardAnswer inet data).1 = (prefixRecords data).filterMap (AnswerRecord.ip inet) ↔
      ∀ record ∈ misreadRecords data, record.isAddress = false := by
    rw [hips, List.append_right_eq_self, filterMap_ip_eq_nil_iff]
  have httl (hnone : ∀ record ∈ misreadRecords data, record.isAddress = false) :
      (parseForwardAnswer inet data).2 = (lifetimes data).foldl leastLifetime 0 := by
    have hfilter : (misreadRecords data).filter AnswerRecord.isAddress = [] := by
      simpa using hnone
    rw [parseForwardAnswer_ttl, addressRecords, answerRecords_eq, List.filter_append, hfilter,
      List.append_nil, lifetimes]
  constructor
  · rintro ⟨haddresses, hlifetime⟩
    have hnone := hmisread.mp haddresses
    refine ⟨hnone, ?_⟩
    by_cases hempty : lifetimes data = []
    · exact .inl (by simp [hempty])
    · rw [httl hnone] at hlifetime
      exact (foldl_leastLifetime_iff hempty).mp (hlifetime hempty)
  · rintro ⟨hnone, hzero⟩
    refine ⟨hmisread.mpr hnone, fun hsome ↦ ?_⟩
    rw [httl hnone]
    exact (foldl_leastLifetime_iff hsome).mpr hzero

/-- No byte behind the datagram is read, and the answers are read exactly under two conditions: behind the
well-formed prefix nothing is taken for an address, and no lifetime is 0 but for the last. -/
theorem upstream_answers_exact_iff (inet : Inet) (data : Bytes) :
    parseForwardAnswerRead inet data = some (parseForwardAnswer inet data) ∧
      (ReadExactly inet data (parseForwardAnswer inet data) ↔
        (∀ record ∈ misreadRecords data, record.isAddress = false) ∧
          (0 ∉ lifetimes data ∨ (lifetimes data).getLast? = some 0)) :=
  ⟨parseForwardAnswerRead_eq inet data, readExactly_iff inet data⟩

/-- A reply with two answers, with the lifetimes 0 and 60. -/
def pairReply : Bytes :=
  [0x12, 0x34, 0x81, 0x80, 0, 0, 0, 2, 0, 0, 0, 0, 0, 0, 1, 0, 1, 0, 0, 0, 0, 0, 4, 10, 0, 0, 1,
    0, 0, 1, 0, 1, 0, 0, 0, 60, 0, 4, 10, 0, 0, 2]

/-- A reply whose answer has a name that points to the flags. -/
def damagedReply : Bytes :=
  [0x12, 0x34, 0x81, 0x80, 0, 0, 0, 1, 0, 0, 0, 0, 0xC0, 0x02, 0, 1, 0, 1, 0, 0, 0, 60, 0, 4, 10, 0, 0, 1]

theorem nameEnd_root {offset : Nat} (hroot : data[offset]? = some 0) :
    nameEnd data offset = some (offset + 1) := by
  rw [nameEnd, readName_of_nameAt (.root hroot)]
  rfl

theorem damagedReply_records :
    answerRecords damagedReply = [⟨1, 60, [10, 0, 0, 1]⟩] ∧ prefixRecords damagedReply = [] := by
  have hname : nameEnd damagedReply 12 = none := by
    have hflags : readName limits damagedReply 1 [] 2 = none := by
      rw [readName]
      rfl
    have hpointer : readName limits damagedReply 0 [] 12 =
        (readName limits damagedReply 1 [] 2).map fun found ↦ (found.1, 14) := by
      rw [readName]
      rfl
    rw [nameEnd, hpointer, hflags]
    rfl
  have hdecode : decodeDomainName damagedReply 12 = ([], 14) := by
    have hflags : decodeLabels damagedReply 2 1 [] (some 14) = ([], some 14) := by
      rw [decodeLabels]
      rfl
    have hpointer : decodeLabels damagedReply 12 0 [] none = decodeLabels damagedReply 2 1 [] (some 14) := by
      rw [decodeLabels]
      rfl
    rw [decodeDomainName, hpointer, hflags]
    rfl
  constructor
  · calc answerRecords damagedReply = walkRecords damagedReply 1 12 := rfl
      _ = [⟨1, 60, [10, 0, 0, 1]⟩] := by
          rw [walkRecords, hdecode]
          rfl
  · calc prefixRecords damagedReply = wholeRecords damagedReply 1 12 := rfl
      _ = [] := by rw [wholeRecords, recordAt, hname]

theorem pairReply_records : prefixRecords pairReply = [⟨1, 0, [10, 0, 0, 1]⟩, ⟨1, 60, [10, 0, 0, 2]⟩] ∧
      misreadRecords pairReply = [] := by
  have hfirst : recordAt pairReply 12 = some (⟨1, 0, [10, 0, 0, 1]⟩, 27) := by
    rw [recordAt, nameEnd_root rfl]
    rfl
  have hsecond : recordAt pairReply 27 = some (⟨1, 60, [10, 0, 0, 2]⟩, 42) := by
    rw [recordAt, nameEnd_root rfl]
    rfl
  constructor
  · calc prefixRecords pairReply = wholeRecords pairReply 2 12 := rfl
      _ = [⟨1, 0, [10, 0, 0, 1]⟩, ⟨1, 60, [10, 0, 0, 2]⟩] := by
          simp only [wholeRecords, hfirst, hsecond]
  · calc misreadRecords pairReply = misreadFrom pairReply 2 12 := rfl
      _ = [] := by simp only [misreadFrom, hfirst, hsecond]

/-- A record whose name points to the flags of the header is taken for an address, and of the lifetimes 0
and 60 the least is given as 60. -/
theorem answers_not_exact : (parseForwardAnswer quadInet damagedReply).1 = [ascii "10.0.0.1"] ∧
      ¬ReadExactly quadInet damagedReply (parseForwardAnswer quadInet damagedReply) ∧
      (parseForwardAnswer quadInet pairReply).2 = 60 ∧
      ¬ReadExactly quadInet pairReply (parseForwardAnswer quadInet pairReply) := by
  have hfound : (parseForwardAnswer quadInet damagedReply).1 = [ascii "10.0.0.1"] := by
    rw [parseForwardAnswer, damagedReply_records.1]
    decide +kernel
  refine ⟨hfound, fun hexact ↦ ?_, ?_, fun hexact ↦ ?_⟩
  · have haddresses := hexact.addresses
    rw [hfound, damagedReply_records.2] at haddresses
    cases haddresses
  · rw [parseForwardAnswer, answerRecords_eq, pairReply_records.1, pairReply_records.2]
    rfl
  · have hcondition := ((readExactly_iff quadInet pairReply).mp hexact).2
    rw [lifetimes, pairReply_records.1] at hcondition
    exact absurd hcondition (by decide)

end DhcpServer.Dns.Message
