import DhcpServer.Dhcp.ProbeNames

/-!
# What the name probes believe

The name of a PTR record is decoded from where its data starts, but not up to where it ends: `decodeName` is
not told the length of the data. The name table of a NBSTAT record is read within its data.
-/

/-!
## Records in the answers to the probes

Both probes come to the data of the first record of a type in a response to their query, and read nothing
behind the datagram on the way.
-/

namespace DhcpServer.Dhcp

open Library Reads Option

namespace DnsMessage

variable {data : Bytes} {id wanted : UInt16} {off behind start rdLength count : Nat}

/-- A response to the query `id` without an error. -/
structure IsReply (data : Bytes) (id questions answers : UInt16) : Prop where
  long : kHeaderBytes ≤ data.length
  id : wordAt data kIdOffset = some id
  response : ∃ flags, data[kFlags1Offset]? = some flags ∧ flags &&& kFlagResponse ≠ 0
  success : ∃ flags, data[kFlags2Offset]? = some flags ∧ flags &&& kMaskRcode = 0
  questions : wordAt data kQdCountOffset = some questions
  answers : wordAt data kAnCountOffset = some answers

inductive QuestionsAt (data : Bytes) : (count off behind : Nat) → Prop
  | none {off : Nat} : QuestionsAt data 0 off off
  | more {count off fixed behind : Nat} (howner : OwnerAt data off fixed)
    (hinside : fixed + kQuestionTailBytes ≤ data.length)
    (hrest : QuestionsAt data count (fixed + kQuestionTailBytes) behind) :
    QuestionsAt data (count + 1) off behind

/-- Of as many records the first one of a type has its data at `start`. -/
inductive FirstAt (data : Bytes) (wanted : UInt16) : (count off start rdLength : Nat) → Prop
  | here {count off fixed : Nat} {rdLength : UInt16} (howner : OwnerAt data off fixed)
    (htype : wordAt data fixed = some wanted)
    (hlength : wordAt data (fixed + kRdLengthOffset) = some rdLength)
    (hinside : fixed + kRecordFixedBytes + rdLength.toNat ≤ data.length) :
    FirstAt data wanted (count + 1) off (fixed + kRdataOffset) rdLength.toNat
  | later {count off fixed start length : Nat} {type rdLength : UInt16} (howner : OwnerAt data off fixed)
    (htype : wordAt data fixed = some type) (hother : type ≠ wanted)
    (hlength : wordAt data (fixed + kRdLengthOffset) = some rdLength)
    (hinside : fixed + kRecordFixedBytes + rdLength.toNat ≤ data.length)
    (hrest : FirstAt data wanted count (fixed + kRecordFixedBytes + rdLength.toNat) start length) :
    FirstAt data wanted (count + 1) off start length

/-- The data of the first record of a type in a response to the query `id`. -/
def FirstRecord (data : Bytes) (id wanted : UInt16) (start rdLength : Nat) : Prop :=
  ∃ questions answers off, IsReply data id questions answers ∧
    QuestionsAt data questions.toNat kHeaderBytes off ∧ FirstAt data wanted answers.toNat off start rdLength

/-! ## The walk over the records -/

theorem exists_wordAt (hinside : off + 2 ≤ data.length) : ∃ word, wordAt data off = some word :=
  ⟨_, wordAt_eq hinside⟩

theorem passed {Found : Type} {refused : Prop} [Decidable refused] {rest : Option (Option Found)}
    {found : Found} (hfound : (if refused then some none else rest) = some (some found)) :
    ¬refused ∧ rest = some (some found) := by
  by_cases hrefused : refused
  · rw [if_pos hrefused] at hfound
    cases hfound
  · rw [if_neg hrefused] at hfound
    exact ⟨hrefused, hfound⟩

theorem exists_readHeader (data : Bytes) (id : UInt16) : ∃ counts, readHeader data id = some counts := by
  unfold readHeader
  by_cases hlong : data.length < kHeaderBytes
  · exact ⟨none, if_pos hlong⟩
  have hlength : 12 ≤ data.length := not_lt.mp hlong
  have hword (place : Nat) (hplace : place + 2 ≤ 12) : ∃ word, wordAt data place = some word :=
    exists_wordAt (by omega)
  obtain ⟨answerId, hid⟩ := hword kIdOffset (by decide)
  obtain ⟨flags1, hflags1⟩ := exists_byteAt (show kFlags1Offset < data.length by rw [kFlags1Offset]; omega)
  obtain ⟨flags2, hflags2⟩ := exists_byteAt (show kFlags2Offset < data.length by rw [kFlags2Offset]; omega)
  obtain ⟨questions, hquestions⟩ := hword kQdCountOffset (by decide)
  obtain ⟨answers, hanswers⟩ := hword kAnCountOffset (by decide)
  rw [if_neg hlong, hid, hflags1, hflags2, hquestions, hanswers]
  simp only [bind_eq_bind, bind_some]
  split_ifs
  all_goals exact ⟨_, rfl⟩

theorem readHeader_iff {questions answers : UInt16} :
    readHeader data id = some (some (questions, answers)) ↔ IsReply data id questions answers := by
  unfold readHeader
  constructor
  · intro hread
    obtain ⟨hlong, hread⟩ := passed hread
    obtain ⟨answerId, hid, hread⟩ := bind_eq_some_iff.mp hread
    obtain ⟨hother, hread⟩ := passed hread
    obtain ⟨flags1, hflags1, hread⟩ := bind_eq_some_iff.mp hread
    obtain ⟨hquery, hread⟩ := passed hread
    obtain ⟨flags2, hflags2, hread⟩ := bind_eq_some_iff.mp hread
    obtain ⟨hrcode, hread⟩ := passed hread
    obtain ⟨qdcount, hqdcount, hread⟩ := bind_eq_some_iff.mp hread
    obtain ⟨ancount, hancount, hread⟩ := bind_eq_some_iff.mp hread
    obtain ⟨rfl, rfl⟩ := Prod.mk.inj (Option.some.inj (Option.some.inj hread))
    exact {
      long := not_lt.mp hlong
      id := by rw [hid, not_not.mp hother]
      response := ⟨flags1, hflags1, hquery⟩
      success := ⟨flags2, hflags2, not_not.mp hrcode⟩
      questions := hqdcount
      answers := hancount }
  · rintro ⟨hlong, hid, ⟨flags1, hflags1, hresponse⟩, ⟨flags2, hflags2, hsuccess⟩, hquestions, hanswers⟩
    rw [if_neg (not_lt.mpr hlong), hid, hflags1, hflags2, hquestions, hanswers]
    simp only [bind_eq_bind, bind_some]
    rw [if_neg (not_not.mpr rfl), if_neg hresponse, if_neg (not_not.mpr hsuccess)]

theorem exists_skipQuestions (data : Bytes) (count off : Nat) :
    ∃ behind, skipQuestions data count off = some behind := by
  induction count generalizing off with
  | zero => exact ⟨_, rfl⟩
  | succ count ih =>
    obtain ⟨fixed, hskip⟩ := exists_skipName data off
    rw [skipQuestions, hskip]
    simp only [bind_eq_bind, bind_some]
    split
    · exact ⟨none, rfl⟩
    · exact ih _

theorem skipQuestions_iff :
    skipQuestions data count off = some (some behind) ↔ QuestionsAt data count off behind := by
  constructor
  · intro hskip
    induction count generalizing off with
    | zero =>
      obtain rfl := Option.some.inj (Option.some.inj hskip)
      exact .none
    | succ count ih =>
      rw [skipQuestions] at hskip
      obtain ⟨fixed, howner, hskip⟩ := bind_eq_some_iff.mp hskip
      obtain ⟨hroom, hskip⟩ := passed hskip
      have hinside : fixed + kQuestionTailBytes ≤ data.length := not_lt.mp hroom
      exact .more (ownerAt_of_skipName howner (by omega)) hinside (ih hskip)
  · intro hquestions
    induction hquestions with
    | none => rfl
    | more howner hinside _ ih =>
      rw [skipQuestions, howner.skipName]
      simp only [bind_eq_bind, bind_some]
      rw [if_neg (not_lt.mpr hinside)]
      exact ih

theorem exists_findRecord (data : Bytes) (wanted : UInt16) (count off : Nat) :
    ∃ found, findRecord data wanted count off = some found := by
  induction count generalizing off with
  | zero => exact ⟨none, rfl⟩
  | succ count ih =>
    obtain ⟨fixed, hskip⟩ := exists_skipName data off
    rw [findRecord, hskip]
    simp only [bind_eq_bind, bind_some]
    by_cases hroom : data.length < fixed + kRecordFixedBytes
    · exact ⟨none, if_pos hroom⟩
    have hfixed : fixed + 10 ≤ data.length := not_lt.mp hroom
    obtain ⟨type, htype⟩ : ∃ word, wordAt data fixed = some word := exists_wordAt (by omega)
    obtain ⟨rdLength, hlength⟩ : ∃ word, wordAt data (fixed + kRdLengthOffset) = some word :=
      exists_wordAt (by rw [kRdLengthOffset]; omega)
    rw [if_neg hroom, htype, hlength]
    simp only [bind_some]
    split_ifs
    · exact ⟨none, rfl⟩
    · exact ⟨_, rfl⟩
    · exact ih _

theorem findRecord_iff : findRecord data wanted count off = some (some (start, rdLength)) ↔
      FirstAt data wanted count off start rdLength := by
  constructor
  · intro hfind
    induction count generalizing off with
    | zero => cases hfind
    | succ count ih =>
      rw [findRecord] at hfind
      obtain ⟨fixed, hskip, hfind⟩ := bind_eq_some_iff.mp hfind
      obtain ⟨hroom, hfind⟩ := passed hfind
      obtain ⟨type, htype, hfind⟩ := bind_eq_some_iff.mp hfind
      obtain ⟨length, hlength, hfind⟩ := bind_eq_some_iff.mp hfind
      have howner : OwnerAt data off fixed := ownerAt_of_skipName hskip (by omega)
      obtain ⟨hlong, hfind⟩ := passed hfind
      split_ifs at hfind with hwanted
      · obtain ⟨rfl, rfl⟩ := Prod.mk.inj (Option.some.inj (Option.some.inj hfind))
        exact .here howner (hwanted ▸ htype) hlength (not_lt.mp hlong)
      · rw [← Nat.add_assoc] at hfind
        exact .later howner htype hwanted hlength (not_lt.mp hlong) (ih hfind)
  · intro hfirst
    induction hfirst with
    | here howner htype hlength hinside =>
      rw [findRecord, howner.skipName]
      simp only [bind_eq_bind, bind_some]
      rw [if_neg (by omega), htype, hlength]
      simp only [bind_some]
      rw [if_neg (not_lt.mpr hinside), if_pos trivial]
    | later howner htype hother hlength hinside _ ih =>
      rw [findRecord, howner.skipName]
      simp only [bind_eq_bind, bind_some]
      rw [if_neg (by omega), htype, hlength]
      simp only [bind_some]
      rw [if_neg (not_lt.mpr hinside), if_neg hother, ← Nat.add_assoc]
      exact ih

theorem exists_recordOf (data : Bytes) (id wanted : UInt16) :
    ∃ found, recordOf data id wanted = some found := by
  obtain ⟨counts, hcounts⟩ := exists_readHeader data id
  rw [recordOf, hcounts]
  simp only [bind_eq_bind, bind_some]
  cases counts with
  | none => exact ⟨none, rfl⟩
  | some counts =>
    obtain ⟨questions, answers⟩ := counts
    obtain ⟨off, hoff⟩ := exists_skipQuestions data questions.toNat kHeaderBytes
    dsimp only
    rw [hoff]
    simp only [bind_some]
    split
    · exact ⟨none, rfl⟩
    · cases off with
      | none => exact ⟨none, rfl⟩
      | some off => exact exists_findRecord data wanted answers.toNat off

theorem recordOf_iff :
    recordOf data id wanted = some (some (start, rdLength)) ↔ FirstRecord data id wanted start rdLength := by
  constructor
  · intro hrecord
    obtain ⟨counts, hcounts, hrecord⟩ := bind_eq_some_iff.mp hrecord
    cases counts with
    | none => cases hrecord
    | some counts =>
      obtain ⟨questions, answers⟩ := counts
      obtain ⟨-, hrecord⟩ := passed hrecord
      obtain ⟨off, hoff, hrecord⟩ := bind_eq_some_iff.mp hrecord
      cases off with
      | none => cases hrecord
      | some off =>
        exact ⟨questions, answers, off, readHeader_iff.mp hcounts, skipQuestions_iff.mp hoff,
          findRecord_iff.mp hrecord⟩
  · rintro ⟨questions, answers, off, hreply, hquestions, hfirst⟩
    have hsome : answers ≠ 0 := by
      rintro rfl
      cases hfirst
    rw [recordOf, readHeader_iff.mpr hreply]
    simp only [bind_eq_bind, bind_some]
    rw [if_neg hsome, skipQuestions_iff.mpr hquestions]
    exact findRecord_iff.mpr hfirst

end DnsMessage

end DhcpServer.Dhcp

namespace DhcpServer.Dhcp

open Library Reads

open WireNames (NameAt)

namespace PtrProbe

open DnsMessage

variable {data : Bytes} {id : UInt16}

/-- The name is the one at the start of the data of the first PTR record and stays in the data up to its first
pointer. -/
def Answers (data : Bytes) (id : UInt16) (name : Bytes) : Prop :=
  ∃ start rdLength behind, FirstRecord data id kTypePtr start rdLength ∧
    NameAt limits data 0 [] start name behind ∧ 0 < rdLength ∧ StaysBefore data (start + rdLength) start

/-- What stands at the start of the data does not run off the datagram, and a name that is more than the root
stays in the data. -/
def Contained (data : Bytes) (id : UInt16) : Prop :=
  ∀ start rdLength, FirstRecord data id kTypePtr start rdLength →
    (∀ out, RunsOff data 0 [] start out → out = []) ∧
      ∀ name behind, NameAt limits data 0 [] start name behind → name ≠ [] →
        0 < rdLength ∧ StaysBefore data (start + rdLength) start

theorem parseResponse_of_record {start rdLength : Nat}
    (hrecord : FirstRecord data id kTypePtr start rdLength) :
    parseResponse data id = decodeName data start 0 [] := by
  rw [parseResponse, recordOf_iff.mpr hrecord]
  rfl

theorem exists_parseResponse (data : Bytes) (id : UInt16) : ∃ name, parseResponse data id = some name := by
  obtain ⟨found, hfound⟩ := exists_recordOf data id kTypePtr
  rw [parseResponse, hfound]
  simp only [Option.bind_eq_bind, Option.bind_some]
  cases found with
  | none => exact ⟨[], rfl⟩
  | some record => exact exists_decodeName data record.1 0 []

theorem answers_iff (data : Bytes) (id : UInt16) :
    (∀ name, parseResponse data id = some name → name ≠ [] → Answers data id name) ↔ Contained data id := by
  constructor
  · intro hanswers start rdLength hrecord
    have hparse := parseResponse_of_record hrecord
    have hsame {otherStart otherLength : Nat} (hother : FirstRecord data id kTypePtr otherStart otherLength) :
        otherStart = start ∧ otherLength = rdLength := by
      have heq := (recordOf_iff.mpr hother).symm.trans (recordOf_iff.mpr hrecord)
      exact Prod.mk.inj (Option.some.inj (Option.some.inj heq))
    constructor
    · intro out hruns
      by_contra hsome
      obtain ⟨otherStart, otherLength, behind, hother, hname, -⟩ :=
        hanswers out (hparse.trans (decodeName_of_runsOff hruns)) hsome
      obtain ⟨rfl, rfl⟩ := hsame hother
      exact not_runsOff_of_nameAt hname hruns
    · intro name behind hname hsome
      obtain ⟨otherStart, otherLength, -, hother, -, hinside⟩ :=
        hanswers name (hparse.trans (decodeName_of_nameAt hname)) hsome
      obtain ⟨rfl, rfl⟩ := hsame hother
      exact hinside
  · intro hcontained name hparse hsome
    obtain ⟨found, hfound⟩ := exists_recordOf data id kTypePtr
    cases found with
    | none =>
      rw [parseResponse, hfound] at hparse
      exact absurd (Option.some.inj hparse).symm hsome
    | some record =>
      obtain ⟨start, rdLength⟩ := record
      have hrecord : FirstRecord data id kTypePtr start rdLength := recordOf_iff.mp hfound
      have hdecode := (parseResponse_of_record hrecord).symm.trans hparse
      obtain ⟨hruns, hinside⟩ := hcontained start rdLength hrecord
      rcases decodeName_cases data start 0 [] with ⟨read, behind, hname⟩ | ⟨out, hout⟩ | hbad
      · obtain rfl := Option.some.inj ((decodeName_of_nameAt hname).symm.trans hdecode)
        exact ⟨start, rdLength, behind, hrecord, hname, hinside read behind hname hsome⟩
      · obtain rfl := Option.some.inj ((decodeName_of_runsOff hout).symm.trans hdecode)
        exact absurd (hruns out hout) hsome
      · exact absurd (Option.some.inj (hbad.symm.trans hdecode)).symm hsome

end PtrProbe

/-! ## The NetBIOS probe -/

namespace NbstatProbe

open DnsMessage

variable {data : Bytes} {id : UInt16}

def NameEntry.Unique (entry : NameEntry) : Prop := entry.flags &&& kFlagGroup = 0 ∧ entry.name ≠ []

/-- The entries of the table in the data of the first NBSTAT record. -/
def TableAt (data : Bytes) (id : UInt16) (entries : List NameEntry) : Prop :=
  ∃ start rdLength count, FirstRecord data id kTypeNbstat start rdLength ∧ data[start]? = some count ∧
    kTableCountBytes + count.toNat * kEntryBytes ≤ rdLength ∧ entries.length = count.toNat ∧
    ∀ index < count.toNat,
      readEntry data (start + kTableCountBytes + index * kEntryBytes) = entries[index]?

/-- The name is one of the table, the workstation name if there is one. -/
def Answers (data : Bytes) (id : UInt16) (name : Bytes) : Prop :=
  ∃ entries, TableAt data id entries ∧ ∃ entry ∈ entries, entry.Unique ∧ entry.name = name ∧
    (entry.suffix = kSuffixWorkstation ∨
      ∀ other ∈ entries, other.Unique → other.suffix ≠ kSuffixWorkstation)

theorem chooseName_of_not_unique {e : NameEntry} (hunique : ¬e.Unique) (firstUnique : Bytes)
    (entries : List NameEntry) : chooseName firstUnique (e :: entries) = chooseName firstUnique entries := by
  rw [chooseName]
  by_cases hgroup : e.flags &&& kFlagGroup = 0
  · have hblank : e.name.isEmpty = true := by
      rw [List.isEmpty_iff]
      by_contra hsome
      exact hunique ⟨hgroup, hsome⟩
    rw [if_neg (not_not.mpr hgroup), if_pos hblank]
  · rw [if_pos hgroup]

theorem chooseName_of_unique {e : NameEntry} (hunique : e.Unique) (firstUnique : Bytes)
    (entries : List NameEntry) :
    chooseName firstUnique (e :: entries) =
      if e.suffix = kSuffixWorkstation then e.name
      else chooseName (if firstUnique.isEmpty then e.name else firstUnique) entries := by
  rw [chooseName, if_neg (not_not.mpr hunique.1), if_neg (by simpa using hunique.2)]

theorem chooseName_cases (firstUnique : Bytes) (entries : List NameEntry) :
    (∃ entry ∈ entries, entry.Unique ∧ entry.suffix = kSuffixWorkstation ∧
        chooseName firstUnique entries = entry.name) ∨
      (∀ other ∈ entries, other.Unique → other.suffix ≠ kSuffixWorkstation) ∧
        (chooseName firstUnique entries = firstUnique ∨
          ∃ entry ∈ entries, entry.Unique ∧ chooseName firstUnique entries = entry.name) := by
  induction entries generalizing firstUnique with
  | nil => exact .inr ⟨by simp, .inl rfl⟩
  | cons e entries ih =>
    simp only [List.exists_mem_cons_iff, List.forall_mem_cons]
    by_cases hunique : e.Unique
    · rw [chooseName_of_unique hunique]
      by_cases hworkstation : e.suffix = kSuffixWorkstation
      · exact .inl (.inl ⟨hunique, hworkstation, if_pos hworkstation⟩)
      · rw [if_neg hworkstation]
        rcases ih (if firstUnique.isEmpty then e.name else firstUnique) with hfound | ⟨hnone, hother⟩
        · exact .inl (.inr hfound)
        · refine .inr ⟨⟨fun _ ↦ hworkstation, hnone⟩, ?_⟩
          rcases hother with hfirst | hentry
          · rw [hfirst]
            split
            · exact .inr (.inl ⟨hunique, rfl⟩)
            · exact .inl rfl
          · exact .inr (.inr hentry)
    · rw [chooseName_of_not_unique hunique]
      rcases ih firstUnique with hfound | ⟨hnone, hother⟩
      · exact .inl (.inr hfound)
      · exact .inr ⟨⟨fun hcontra ↦ absurd hcontra hunique, hnone⟩, hother.imp_right .inr⟩

theorem exists_readEntry {off : Nat} (hinside : off + kEntryBytes ≤ data.length) :
    ∃ entry, readEntry data off = some entry := by
  have hlength : off + 18 ≤ data.length := hinside
  obtain ⟨suffix, hsuffix⟩ := exists_byteAt
    (show off + kEntrySuffixOffset < data.length by rw [kEntrySuffixOffset]; omega)
  obtain ⟨flags, hflags⟩ : ∃ flags, wordAt data (off + kEntryFlagsOffset) = some flags :=
    exists_wordAt (by rw [kEntryFlagsOffset]; omega)
  rw [readEntry, bytesAt_eq (by rw [kEntryNameBytes]; omega), hsuffix, hflags]
  exact ⟨_, rfl⟩

theorem exists_readEntries {count off : Nat} (hinside : off + count * kEntryBytes ≤ data.length) :
    ∃ entries, readEntries data count off = some entries ∧ entries.length = count ∧
      ∀ index < count, readEntry data (off + index * kEntryBytes) = entries[index]? := by
  induction count generalizing off with
  | zero => exact ⟨[], rfl, rfl, by simp⟩
  | succ count ih =>
    rw [Nat.succ_mul] at hinside
    have hfirst : off + kEntryBytes ≤ data.length := by omega
    have hlater : off + kEntryBytes + count * kEntryBytes ≤ data.length := by omega
    obtain ⟨entry, hentry⟩ := exists_readEntry hfirst
    obtain ⟨entries, hentries, hlength, hread⟩ := ih hlater
    refine ⟨entry :: entries, ?_, by rw [List.length_cons, hlength], fun index hindex ↦ ?_⟩
    · rw [readEntries, hentry]
      simp only [Option.bind_eq_bind, Option.bind_some]
      rw [hentries]
      rfl
    · cases index with
      | zero => rw [Nat.zero_mul, Nat.add_zero, hentry]; rfl
      | succ index =>
        rw [List.getElem?_cons_succ, ← hread index (by omega), Nat.succ_mul]
        congr 1
        omega

theorem parseResponse_cases (data : Bytes) (id : UInt16) : parseResponse data id = some [] ∨
      ∃ entries, TableAt data id entries ∧ parseResponse data id = some (chooseName [] entries) := by
  obtain ⟨found, hfound⟩ := exists_recordOf data id kTypeNbstat
  rw [parseResponse, hfound]
  simp only [Option.bind_eq_bind, Option.bind_some]
  cases found with
  | none => exact .inl rfl
  | some record =>
    obtain ⟨start, rdLength⟩ := record
    have hrecord : FirstRecord data id kTypeNbstat start rdLength := recordOf_iff.mp hfound
    dsimp only
    by_cases hshort : rdLength < kTableCountBytes ∨ data.length < start + rdLength
    · exact .inl (if_pos hshort)
    rw [if_neg hshort]
    rw [not_or, not_lt, not_lt] at hshort
    have hstart : start < data.length := by
      have hcount : 1 ≤ rdLength := hshort.1
      omega
    obtain ⟨count, hcount⟩ := exists_byteAt hstart
    rw [hcount, Option.bind_some, readTable]
    by_cases hlong : start + rdLength < start + kTableCountBytes + count.toNat * kEntryBytes
    · rw [if_pos hlong]
      exact .inl rfl
    · obtain ⟨entries, hentries, hlength, hread⟩ := exists_readEntries
        (show start + kTableCountBytes + count.toNat * kEntryBytes ≤ data.length by omega)
      rw [if_neg hlong, hentries]
      exact .inr ⟨entries, ⟨start, rdLength, count, hrecord, hcount, by omega, hlength, hread⟩, rfl⟩

theorem answers_of_parseResponse {name : Bytes} (hname : parseResponse data id = some name)
    (hsome : name ≠ []) : Answers data id name := by
  rcases parseResponse_cases data id with hnothing | ⟨entries, htable, hparse⟩
  · exact absurd (Option.some.inj (hnothing.symm.trans hname)).symm hsome
  · obtain rfl := Option.some.inj (hparse.symm.trans hname)
    refine ⟨entries, htable, ?_⟩
    rcases chooseName_cases [] entries with ⟨entry, hmem, hunique, hsuffix, heq⟩ | ⟨hnone, heq | hentry⟩
    · exact ⟨entry, hmem, hunique, heq.symm, .inl hsuffix⟩
    · exact absurd heq hsome
    · obtain ⟨entry, hmem, hunique, heq⟩ := hentry
      exact ⟨entry, hmem, hunique, heq.symm, .inr hnone⟩

end NbstatProbe

/-- No byte behind the datagram is read, and a name that is returned stands in the answer. -/
structure BelievesAnswer (data : Bytes) (id : UInt16) : Prop where
  ptrReads : ∃ name, PtrProbe.parseResponse data id = some name
  nbstatReads : ∃ name, NbstatProbe.parseResponse data id = some name
  ptr : ∀ name, PtrProbe.parseResponse data id = some name → name ≠ [] → PtrProbe.Answers data id name
  nbstat : ∀ name, NbstatProbe.parseResponse data id = some name → name ≠ [] →
    NbstatProbe.Answers data id name

/-- **What the probes believe.** The NetBIOS probe believes the answer only; the other one does exactly when
the name it decodes is contained. -/
theorem probes_believe_answer_iff (data : Bytes) (id : UInt16) :
    BelievesAnswer data id ↔ PtrProbe.Contained data id := by
  rw [← PtrProbe.answers_iff]
  constructor
  · exact fun hbelieves ↦ hbelieves.ptr
  · intro hptr
    have hnbstat : ∃ name, NbstatProbe.parseResponse data id = some name := by
      rcases NbstatProbe.parseResponse_cases data id with hnothing | ⟨entries, -, hparse⟩
      · exact ⟨[], hnothing⟩
      · exact ⟨_, hparse⟩
    exact ⟨PtrProbe.exists_parseResponse data id, hnbstat, hptr,
      fun name hname hsome ↦ NbstatProbe.answers_of_parseResponse hname hsome⟩

/-- An answer with one PTR record whose data is said to have `rdLength` bytes. -/
def ptrReply (rdLength : UInt8) (rdata : Bytes) : Bytes :=
  [0, 7, 0x81, 0x80, 0, 0, 0, 1, 0, 0, 0, 0, 0, 0, 12, 0, 1, 0, 0, 0, 60, 0, rdLength] ++ rdata

theorem firstRecord_ptrReply {rdLength : UInt8} {rdata : Bytes} (hinside : rdLength.toNat ≤ rdata.length) :
    DnsMessage.FirstRecord (ptrReply rdLength rdata) 7 PtrProbe.kTypePtr 23 rdLength.toNat := by
  have hnumber : (0 ||| rdLength.toUInt16 : UInt16).toNat = rdLength.toNat := by simp
  have hlength : wordAt (ptrReply rdLength rdata) (13 + DnsMessage.kRdLengthOffset) =
      some (0 ||| rdLength.toUInt16) := rfl
  have hfits : 13 + DnsMessage.kRecordFixedBytes + (0 ||| rdLength.toUInt16 : UInt16).toNat ≤
      (ptrReply rdLength rdata).length := by
    rw [hnumber, ptrReply, List.length_append]
    exact Nat.add_le_add_left hinside 23
  have hfirst : DnsMessage.FirstAt (ptrReply rdLength rdata) PtrProbe.kTypePtr 1 12
      (13 + DnsMessage.kRdataOffset) (0 ||| rdLength.toUInt16 : UInt16).toNat :=
    .here (.root rfl) rfl hlength hfits
  rw [hnumber] at hfirst
  have hreply : DnsMessage.IsReply (ptrReply rdLength rdata) 7 0 1 := {
    long := by
      rw [ptrReply, List.length_append]
      exact Nat.le_add_right_of_le (show DnsMessage.kHeaderBytes ≤ 23 by decide)
    id := rfl
    response := ⟨0x81, rfl, by decide⟩
    success := ⟨0x80, rfl, by decide⟩
    questions := rfl
    answers := rfl }
  exact ⟨0, 1, 12, hreply, .none, hfirst⟩

/-- A name without its end, and a name that goes on behind its record, are believed. -/
theorem probes_believe_more : (PtrProbe.parseResponse (ptrReply 2 [1, 0x61]) 7 = some (ascii "a") ∧
        ¬BelievesAnswer (ptrReply 2 [1, 0x61]) 7) ∧
      PtrProbe.parseResponse (ptrReply 1 [1, 0x61, 0]) 7 = some (ascii "a") ∧
        ¬BelievesAnswer (ptrReply 1 [1, 0x61, 0]) 7 := by
  have hbyte (rdLength : UInt8) (more : Bytes) : (ptrReply rdLength (1 :: more))[23]? = some 1 := rfl
  have hruns : DnsMessage.RunsOff (ptrReply 2 [1, 0x61]) 0 [] 23 (ascii "a") :=
    .label (hbyte 2 [0x61]) (by decide) (by decide) (by decide) (.off (by decide))
  have hname : NameAt DnsMessage.limits (ptrReply 1 [1, 0x61, 0]) 0 [] 23 (ascii "a") 26 :=
    .label (hbyte 1 [0x61, 0]) (by decide) (by decide) (by decide) rfl (.root rfl)
  have hopen : DnsMessage.FirstRecord (ptrReply 2 [1, 0x61]) 7 PtrProbe.kTypePtr 23 2 :=
    firstRecord_ptrReply (by decide)
  have hlong : DnsMessage.FirstRecord (ptrReply 1 [1, 0x61, 0]) 7 PtrProbe.kTypePtr 23 1 :=
    firstRecord_ptrReply (by decide)
  refine ⟨⟨?_, fun hbelieves ↦ ?_⟩, ?_, fun hbelieves ↦ ?_⟩
  · rw [PtrProbe.parseResponse_of_record hopen]
    exact DnsMessage.decodeName_of_runsOff hruns
  · have hcontained := (PtrProbe.answers_iff _ _).mp hbelieves.ptr 23 2 hopen
    exact absurd (hcontained.1 _ hruns) (by decide)
  · rw [PtrProbe.parseResponse_of_record hlong]
    exact DnsMessage.decodeName_of_nameAt hname
  · have hcontained := (PtrProbe.answers_iff _ _).mp hbelieves.ptr 23 1 hlong
    obtain ⟨-, hstays⟩ := hcontained.2 _ _ hname (by decide)
    rcases hstays with ⟨hroot, -⟩ | ⟨hfirst, hpointer, -⟩ | ⟨hlabel, -, -, hstop, -⟩
    · exact absurd (Option.some.inj ((hbyte 1 [0x61, 0]).symm.trans hroot)) (by decide)
    · obtain rfl := Option.some.inj ((hbyte 1 [0x61, 0]).symm.trans hfirst)
      exact absurd hpointer (by decide)
    · obtain rfl := Option.some.inj ((hbyte 1 [0x61, 0]).symm.trans hlabel)
      exact absurd hstop (by decide)

end DhcpServer.Dhcp
