import DhcpServer.Dns.AnswerFits

/-!
# The question in a reply

The name of a question is kept as a text, with a dot between two labels, and written again from it. A label
with a dot in it comes back as two labels. The limit of a name does not count the dot that a label is added
with, so a text may be one byte longer.
-/

namespace DhcpServer.Dns.Message

open Library WireNames List

open InternalCache (Inet kTypeA)

variable {data text label rest : Bytes} {labels : List Bytes} {question : Question} {pos jumps behind : Nat}

/-- The reply has the id of the query, and in its question the labels, the type and the class of the query's
question. -/
structure Echoes (query reply : Bytes) : Prop where
  id : readU16 reply 0 = readU16 query 0
  asked : ∃ labels queryBehind replyBehind, RowAt query kHeaderBytes labels queryBehind ∧
    LabelsAt reply kHeaderBytes labels replyBehind ∧
    readU16 reply replyBehind = readU16 query queryBehind ∧
    readU16 reply (replyBehind + 2) = readU16 query (queryBehind + 2)

/-- The text of the name is not too long, it is written as the query's name without pointers, and the
replies have the question of the query. -/
structure QuestionEchoed (data : Bytes) (question : Question) : Prop where
  short : question.domain.length ≤ kMaxNameLen
  encoded : ∃ labels behind, RowAt data kHeaderBytes labels behind ∧
    encodeDomainName question.domain = wireOf labels
  answer : ∀ (inet : Inet) (leftover : Buffer) (ips : List Bytes) (ttl : UInt32),
    Echoes data (buildAnswer inet leftover kMaxMsgSize question ips ttl)
  nxdomain : Echoes data (buildNxdomain kMaxMsgSize question)

/-- The name of the question has no label with a dot in it, and its labels with a byte more for each are at
most 256 bytes. -/
def PlainName (data : Bytes) : Prop :=
  ∃ labels behind, RowAt data kHeaderBytes labels behind ∧ (∀ label ∈ labels, dot ∉ label) ∧
    (labels.map fun label ↦ label.length + 1).sum ≤ kMaxNameLen + 1

def dotted (labels : List Bytes) : Bytes := labels.flatMap fun label ↦ dot :: label

theorem foldl_addLabel (labels : List Bytes) (htext : text ≠ []) :
    labels.foldl addLabel text = text ++ dotted labels := by
  induction labels generalizing text with
  | nil => exact (append_nil text).symm
  | cons label labels ih =>
    have hadded : addLabel text label = text ++ dot :: label := by
      rw [addLabel, if_neg (by simpa using htext), append_assoc]
      rfl
    calc (label :: labels).foldl addLabel text
        = labels.foldl addLabel (text ++ dot :: label) := by rw [foldl_cons, hadded]
      _ = (text ++ dot :: label) ++ dotted labels := ih (by simp)
      _ = text ++ dotted (label :: labels) := append_assoc _ _ _

theorem labelsOf_append_dot (rest : Bytes) (hdot : dot ∉ label) :
    labelsOf (label ++ dot :: rest) = label :: labelsOf rest := by
  induction label with
  | nil => exact if_pos rfl
  | cons byte label ih =>
    have hbyte : dot ≠ byte := ne_of_not_mem_cons hdot
    have hlabel : dot ∉ label := not_mem_of_not_mem_cons hdot
    rw [cons_append, labelsOf, if_neg hbyte.symm, ih hlabel]

theorem labelsOf_label (hlabel : label ≠ []) (hdot : dot ∉ label) : labelsOf label = [label] := by
  induction label with
  | nil => exact absurd rfl hlabel
  | cons byte label ih =>
    have hbyte : dot ≠ byte := ne_of_not_mem_cons hdot
    have hrest : dot ∉ label := not_mem_of_not_mem_cons hdot
    rw [labelsOf, if_neg hbyte.symm]
    by_cases hnil : label = []
    · rw [hnil]
      rfl
    · rw [ih hnil hrest]

theorem labelsOf_dotted (hplain : ∀ part ∈ label :: labels, part ≠ [] ∧ dot ∉ part) :
    labelsOf (label ++ dotted labels) = label :: labels := by
  induction labels generalizing label with
  | nil =>
    obtain ⟨hlabel, hdot⟩ := hplain label mem_cons_self
    rw [dotted, flatMap_nil, append_nil, labelsOf_label hlabel hdot]
  | cons next labels ih =>
    obtain ⟨⟨-, hdot⟩, hrest⟩ := forall_mem_cons.mp hplain
    have hnext : dotted (next :: labels) = dot :: (next ++ dotted labels) := rfl
    rw [hnext, labelsOf_append_dot _ hdot, ih hrest]

theorem dot_not_mem_labelsOf (domain : Bytes) : ∀ label ∈ labelsOf domain, dot ∉ label := by
  induction domain with
  | nil => exact forall_mem_nil _
  | cons byte rest ih =>
    rw [labelsOf]
    split_ifs with hbyte
    · exact forall_mem_cons.mpr ⟨not_mem_nil, ih⟩
    · split
      · rename_i label labels hlabels
        rw [hlabels] at ih
        obtain ⟨hlabel, hlabels⟩ := forall_mem_cons.mp ih
        exact forall_mem_cons.mpr ⟨not_mem_cons_of_ne_of_not_mem (Ne.symm hbyte) hlabel, hlabels⟩
      · exact forall_mem_cons.mpr ⟨by simpa using Ne.symm hbyte, forall_mem_nil _⟩

theorem length_dotted (label : Bytes) (labels : List Bytes) :
    (label ++ dotted labels).length + 1 = ((label :: labels).map fun part ↦ part.length + 1).sum := by
  have hdotted : (dotted labels).length = (labels.map fun part ↦ part.length + 1).sum := by
    rw [dotted, length_flatMap]
    rfl
  rw [length_append, hdotted, map_cons, sum_cons]
  omega

theorem nameAt_of_decodeLabels {known : Option Nat}
    (hname : (decodeLabels data pos jumps text known).1 ≠ []) :
    ∃ behind, NameAt limits data jumps text pos (decodeLabels data pos jumps text known).1 behind ∧
      (decodeLabels data pos jumps text known).2 = some (known.getD behind) := by
  fun_induction decodeLabels data pos jumps text known with
  | case2 pos jumps text known hinside byte hzero =>
    exact ⟨pos + 1, .root ((byteAt_of_getD hinside).trans (congrArg some hzero)), rfl⟩
  | case5 pos jumps text known hinside byte hzero hpointer hend following target hfew ih =>
    obtain ⟨behind, hnamed, hbehind⟩ := ih hname
    have hjumps : jumps < limits.pointers := not_lt.mp hfew
    exact ⟨pos + 2, .pointer (byteAt_of_getD hinside) hpointer (byteAt_of_getD hend) hjumps rfl hnamed,
      hbehind⟩
  | case9 pos jumps text known hinside byte hzero hpointer hlabel labelLen hlong hfits separator label ih =>
    obtain ⟨behind, hnamed, hbehind⟩ := ih hname
    have hinsideLabel : pos + 1 + byte.toNat ≤ data.length := by
      have hfirst : pos < data.length := not_le.mp hinside
      have hroom : byte.toNat ≤ data.length - (pos + 1) := not_lt.mp hlong
      omega
    exact ⟨behind, .label (byteAt_of_getD hinside) hzero (not_not.mp hlabel) hinsideLabel
      (decide_eq_true (not_lt.mp hfits)) hnamed, hbehind⟩
  | _ => exact absurd rfl hname

/-- What `parseQuery` takes from a datagram it accepts. -/
structure Parsed (data : Bytes) (question : Question) (labels : List Bytes) (behind : Nat) : Prop where
  row : RowAt data kHeaderBytes labels behind
  ne_nil : labels ≠ []
  domain : question.domain = labels.foldl addLabel []
  type : question.type = readU16 data behind
  cls : question.cls = readU16 data (behind + 2)
  id : question.id = readU16 data 0

theorem exists_parsed (hparse : parseQuery data = some question) :
    ∃ labels behind, Parsed data question labels behind := by
  unfold parseQuery at hparse
  split_ifs at hparse
  dsimp only at hparse
  split_ifs at hparse with hempty hlong
  have hname : (decodeLabels data kHeaderBytes 0 [] none).1 ≠ [] :=
    fun hnil ↦ hempty (List.isEmpty_iff.mpr hnil)
  obtain ⟨behind, hnamed, hbehind⟩ := nameAt_of_decodeLabels hname
  obtain ⟨labels, hrow, htext⟩ := hnamed.rowAt
  have hoffset : (decodeDomainName data kHeaderBytes).2 = behind := by
    exact congrArg (fun known ↦ known.getD kHeaderBytes) hbehind
  rw [hoffset] at hparse
  cases hparse
  refine ⟨labels, behind, hrow, ?_, htext, rfl, rfl, rfl⟩
  rintro rfl
  exact hname htext

theorem parseQuery_of_nameAt {name : Bytes} (hheader : kHeaderBytes ≤ data.length)
    (hquery : readU16 data kFlags1Offset &&& kFlagQr = 0) (hcount : readU16 data kQdCountOffset ≠ 0)
    (hnamed : NameAt limits data 0 [] kHeaderBytes name behind) (hname : name ≠ [])
    (htail : behind + kQuestionTailBytes ≤ data.length) :
    parseQuery data = some ⟨name, readU16 data behind, readU16 data (behind + 2), readU16 data 0⟩ := by
  have hdecoded : decodeDomainName data kHeaderBytes = (name, behind) := by
    rw [decodeDomainName, decodeLabels_of_nameAt hnamed]
    rfl
  rw [parseQuery, if_neg (not_lt.mpr hheader), if_neg (not_not.mpr hquery), if_neg hcount, hdecoded]
  dsimp only
  rw [if_neg (by simpa using hname), if_neg (not_lt.mpr htail)]

namespace Parsed

section

variable (hparsed : Parsed data question labels behind)
include hparsed

theorem exists_first :
    ∃ first others, labels = first :: others ∧ question.domain = first ++ dotted others := by
  have hlabels := hparsed.row.forall_labels
  have hdomain := hparsed.domain
  cases labels with
  | nil => exact absurd rfl hparsed.ne_nil
  | cons first others =>
    have hfirst := (hlabels first mem_cons_self).1
    refine ⟨first, others, rfl, ?_⟩
    rw [hdomain, foldl_cons]
    exact foldl_addLabel others hfirst

theorem length_domain : question.domain.length + 1 = (labels.map fun label ↦ label.length + 1).sum := by
  obtain ⟨first, others, rfl, hdomain⟩ := hparsed.exists_first
  rw [hdomain, length_dotted]

theorem askedLabels_eq (hdots : ∀ label ∈ labels, dot ∉ label) : askedLabels question.domain = labels := by
  have hlabels := hparsed.row.forall_labels
  obtain ⟨first, others, rfl, hdomain⟩ := hparsed.exists_first
  have hplain : ∀ part ∈ first :: others, part ≠ [] ∧ dot ∉ part :=
    fun part hpart ↦ ⟨(hlabels part hpart).1, hdots part hpart⟩
  rw [askedLabels, hdomain, labelsOf_dotted hplain]
  refine (map_congr_left fun part hpart ↦ ?_).trans (map_id _)
  exact take_of_length_le (hlabels part hpart).2

theorem encodeDomainName_eq_iff :
    encodeDomainName question.domain = wireOf labels ↔ ∀ label ∈ labels, dot ∉ label := by
  rw [encodeDomainName_eq]
  constructor
  · intro hwire label hlabel
    have hsame : askedLabels question.domain = labels :=
      wireOf_inj (length_askedLabels_le _) (fun part hpart ↦ (hparsed.row.forall_labels part hpart).2) hwire
    rw [← hsame] at hlabel
    obtain ⟨whole, hwhole, rfl⟩ := mem_map.mp hlabel
    exact fun hdot ↦ dot_not_mem_labelsOf _ whole hwhole (mem_of_mem_take hdot)
  · exact fun hdots ↦ congrArg wireOf (hparsed.askedLabels_eq hdots)

theorem echoes (hdots : ∀ label ∈ labels, dot ∉ label)
    {flags ancount : UInt16} {reply : Bytes}
    (hreply : reply = namedHeader flags ancount question ++
      (bigEndian16 question.type ++ (bigEndian16 question.cls ++ rest))) :
    Echoes data reply := by
  have hwire : encodeDomainName question.domain = wireOf labels := hparsed.encodeDomainName_eq_iff.mpr hdots
  have hname : reply.drop kHeaderBytes =
      wireOf labels ++ (bigEndian16 question.type ++ (bigEndian16 question.cls ++ rest)) := by
    rw [hreply, namedHeader, append_assoc, ← hwire]
    rfl
  have htype : reply.drop (kHeaderBytes + (wireOf labels).length) =
      bigEndian16 question.type ++ (bigEndian16 question.cls ++ rest) := by
    rw [← drop_drop, hname, drop_left]
  have hcls : reply.drop (kHeaderBytes + (wireOf labels).length + 2) = bigEndian16 question.cls ++ rest := by
    rw [← drop_drop, htype]
    rfl
  have hid : reply.drop 0 = bigEndian16 question.id ++ (reply.drop 2) := by
    rw [hreply]
    rfl
  refine ⟨?_, labels, behind, _, hparsed.row, labelsAt_of_drop hparsed.row.forall_labels hname, ?_, ?_⟩
  · rw [readU16_of_drop hid, hparsed.id]
  · rw [readU16_of_drop htype, hparsed.type]
  · rw [readU16_of_drop hcls, hparsed.cls]

end

end Parsed

theorem askedEnd_le (hparse : parseQuery data = some question) : askedEnd question.domain ≤ kMaxMsgSize := by
  have hdomain := parseQuery_domain hparse
  have hencoded := length_encodeDomainName_le question.domain
  rw [askedEnd, namedEnd]
  simp only [kMaxNameLen, kHeaderBytes, kQuestionTailBytes, kMaxMsgSize] at hdomain ⊢
  omega

/-- The question comes back exactly if its labels have no dots in them and are not too long. -/
theorem question_echoed_iff (hparse : parseQuery data = some question) :
    QuestionEchoed data question ↔ PlainName data := by
  obtain ⟨labels, behind, hparsed⟩ := exists_parsed hparse
  have hlength := hparsed.length_domain
  constructor
  · rintro ⟨hshort, ⟨others, otherBehind, hrow, hwire⟩, -, -⟩
    obtain ⟨rfl, rfl⟩ := hparsed.row.unique hrow
    refine ⟨labels, behind, hrow, hparsed.encodeDomainName_eq_iff.mp hwire, ?_⟩
    omega
  · rintro ⟨others, otherBehind, hrow, hdots, hshort⟩
    obtain ⟨rfl, rfl⟩ := hparsed.row.unique hrow
    have hroom := askedEnd_le hparse
    refine ⟨by omega, ⟨labels, behind, hrow, hparsed.encodeDomainName_eq_iff.mpr hdots⟩, ?_, ?_⟩
    · intro inet leftover ips ttl
      have hanswer := buildAnswer_eq inet leftover ips ttl hroom
      rw [← append_assoc] at hanswer
      exact hparsed.echoes hdots hanswer
    · have hnxdomain := buildQuestion_of_room hroom (kFlagQr ||| kFlagRd ||| kFlagRa ||| kRcodeNxdomain) 0
      rw [← append_nil (bigEndian16 question.cls), append_assoc] at hnxdomain
      exact hparsed.echoes hdots hnxdomain

def queryFor (label : Bytes) : Bytes :=
  header 0x1234 kFlagRd 0 ++ wireOf [label] ++ bigEndian16 kTypeA ++ bigEndian16 1

def plainLabel : Bytes := [0x61, 0x62]

def labelWithDot : Bytes := [0x61, dot, 0x62]

theorem parseQuery_plainLabel :
    parseQuery (queryFor plainLabel) = some ⟨plainLabel, kTypeA, 1, 0x1234⟩ := by
  have hnamed : NameAt limits (queryFor plainLabel) 0 [] kHeaderBytes plainLabel 16 :=
    .label rfl (by decide) rfl (by decide) rfl (.root rfl)
  exact parseQuery_of_nameAt (by decide) rfl (by decide) hnamed (by decide) (by decide)

theorem parseQuery_labelWithDot :
    parseQuery (queryFor labelWithDot) = some ⟨labelWithDot, kTypeA, 1, 0x1234⟩ := by
  have hnamed : NameAt limits (queryFor labelWithDot) 0 [] kHeaderBytes labelWithDot 17 :=
    .label rfl (by decide) rfl (by decide) rfl (.root rfl)
  exact parseQuery_of_nameAt (by decide) rfl (by decide) hnamed (by decide) (by decide)

theorem question_echoed_plainLabel :
    QuestionEchoed (queryFor plainLabel) ⟨plainLabel, kTypeA, 1, 0x1234⟩ := by
  have hrow : RowAt (queryFor plainLabel) kHeaderBytes [plainLabel] 16 :=
    @RowAt.label _ kHeaderBytes 2 [] 16 rfl (by decide) rfl (by decide) (.root rfl)
  exact (question_echoed_iff parseQuery_plainLabel).mpr ⟨[plainLabel], 16, hrow, by decide, by decide⟩

/-- A label with a dot comes back as two. -/
theorem labelWithDot_not_echoed : ¬∀ (data : Bytes) (question : Question), parseQuery data = some question →
      QuestionEchoed data question := by
  intro hechoed
  obtain ⟨-, ⟨labels, behind, hrow, hwire⟩, -, -⟩ := hechoed _ _ parseQuery_labelWithDot
  have hasked : RowAt (queryFor labelWithDot) kHeaderBytes [labelWithDot] 17 :=
    @RowAt.label _ kHeaderBytes 3 [] 17 rfl (by decide) rfl (by decide) (.root rfl)
  obtain ⟨rfl, rfl⟩ := hasked.unique hrow
  exact absurd hwire (by decide)

end DhcpServer.Dns.Message
