import DhcpServer.Library.Bytes
import DhcpServer.Library.Occurrences

/-!
# The payload of a multipart body

`MultipartExtractor` takes a body piece by piece. What it has read is compared with what the whole text
so far says: the part headers end at the first blank line, the payload at the first delimiter behind it,
and as much of the payload is held back as can be a beginning of the delimiter.
-/

namespace DhcpServer.Web.Multipart

open Library List Option

/-! ## The source's class -/

def headerEnd : Bytes := [0x0D, 0x0A, 0x0D, 0x0A]

def kMaxHeaderBytes : Nat := 8192

/-- What a sink answers to the next bytes, by what it has taken. -/
abbrev Sink := List Bytes → Bytes → Bool

structure MultipartExtractor where
  delimiter : Bytes
  headerAcc : Bytes := []
  pending : Bytes := []
  /-- what the sink has taken -/
  delivered : List Bytes := []
  payloadBytes : UInt64 := 0
  dataStarted : Bool := false
  dataDone : Bool := false
  failed : Bool := false

namespace MultipartExtractor

def delimiterOf (boundary : Bytes) : Bytes := [0x0D, 0x0A, 0x2D, 0x2D] ++ boundary

def make (boundary : Bytes) : MultipartExtractor where
  delimiter := delimiterOf boundary
  failed := boundary = []

variable (sink : Option Sink) (extractor : MultipartExtractor)

def handOver (bytes : Bytes) : Bool × MultipartExtractor :=
  let counted := { extractor with payloadBytes := extractor.payloadBytes + UInt64.ofNat bytes.length }
  match sink with
  | none => (true, counted)
  | some sink =>
    if sink extractor.delivered bytes then
      (true, { counted with delivered := extractor.delivered ++ [bytes] })
    else (false, { extractor with failed := true })

def consume (data : Bytes) : Bool × MultipartExtractor :=
  let pending := extractor.pending ++ data
  match cutAt extractor.delimiter pending with
  | some cut =>
    let handed := if cut.1 = [] then (true, extractor) else extractor.handOver sink cut.1
    if handed.1 then (true, { handed.2 with pending := [], dataDone := true })
    else (false, { handed.2 with pending })
  | none =>
    let keep := extractor.delimiter.length - 1
    if keep < pending.length then
      let take := pending.length - keep
      let handed := extractor.handOver sink (pending.take take)
      if handed.1 then (true, { handed.2 with pending := pending.drop take })
      else (false, { handed.2 with pending })
    else (true, { extractor with pending })

def feed (data : Bytes) : Bool × MultipartExtractor :=
  if extractor.failed || extractor.dataDone then (!extractor.failed, extractor)
  else if data = [] then (true, extractor)
  else if !extractor.dataStarted then
    let headerAcc := extractor.headerAcc ++ data
    match cutAt headerEnd headerAcc with
    | none =>
      if kMaxHeaderBytes < headerAcc.length then (false, { extractor with headerAcc, failed := true })
      else (true, { extractor with headerAcc })
    | some cut =>
      let started := { extractor with headerAcc := [], dataStarted := true }
      if cut.2 ≠ [] then started.consume sink cut.2 else (true, started)
  else extractor.consume sink data

def finish : Bool := if extractor.failed then false else extractor.dataDone

end MultipartExtractor

open MultipartExtractor

def acceptsAll : Sink := fun _ _ ↦ true

def run (boundary : Bytes) (pieces : List Bytes) : MultipartExtractor :=
  pieces.foldl (fun extractor piece ↦ (extractor.feed (some acceptsAll) piece).2) (make boundary)

def outcome (boundary : Bytes) (pieces : List Bytes) : Bool × Bytes :=
  ((run boundary pieces).finish, (run boundary pieces).delivered.flatten)

/-- The bytes between the blank line and the delimiter, where both are there. -/
def Encloses (delimiter body payload : Bytes) : Prop :=
  ∃ header rest behind,
    cutAt headerEnd body = some (header, rest) ∧ cutAt delimiter rest = some (payload, behind)

structure IndependentOfCuts (boundary : Bytes) (pieces others : List Bytes) : Prop where
  same : outcome boundary pieces = outcome boundary others
  exact : ∀ cutting ∈ [pieces, others], (outcome boundary cutting).1 = true →
    Encloses (delimiterOf boundary) cutting.flatten (outcome boundary cutting).2

/-- A piece ends behind the limit and before the blank line. -/
def Overruns (pieces : List Bytes) : Prop :=
  ∃ front, front <+: pieces ∧ kMaxHeaderBytes < front.flatten.length ∧ ¬headerEnd <:+: front.flatten

/-- Nothing of the payload goes to the sink: there is none, or it can all be a beginning of the
delimiter. -/
def NothingOut (delimiter body : Bytes) : Prop :=
  ∀ header rest, cutAt headerEnd body = some (header, rest) →
    ¬delimiter <:+: rest ∧ rest.length < delimiter.length

structure Reading (delimiter text : Bytes) (extractor : MultipartExtractor) : Prop where
  absent : ¬headerEnd <:+: text
  header : extractor.headerAcc = text
  pending : extractor.pending = []
  delivered : extractor.delivered = []
  unfinished : extractor.dataDone = false
  unstarted : extractor.dataStarted = false
  unfailed : extractor.failed = false
  delimiter : extractor.delimiter = delimiter

/-- Behind the header, with the end of what has come held back. -/
structure Holding (delimiter rest : Bytes) (extractor : MultipartExtractor) : Prop where
  absent : ¬delimiter <:+: rest
  whole : extractor.delivered.flatten ++ extractor.pending = rest
  held : extractor.pending.length = min rest.length (delimiter.length - 1)
  unfinished : extractor.dataDone = false
  started : extractor.dataStarted = true
  unfailed : extractor.failed = false
  delimiter : extractor.delimiter = delimiter

structure Done (delimiter rest : Bytes) (extractor : MultipartExtractor) : Prop where
  payload : ∃ behind, cutAt delimiter rest = some (extractor.delivered.flatten, behind)
  finished : extractor.dataDone = true
  unfailed : extractor.failed = false

inductive Stage (delimiter text : Bytes) (extractor : MultipartExtractor) : Prop
  | reading (hreading : Reading delimiter text extractor)
  | holding (header rest : Bytes) (hcut : cutAt headerEnd text = some (header, rest))
      (hholding : Holding delimiter rest extractor)
  | done (header rest : Bytes) (hcut : cutAt headerEnd text = some (header, rest))
      (hdone : Done delimiter rest extractor)

variable {delimiter boundary text data rest header : Bytes} {extractor : MultipartExtractor}
  {pieces others : List Bytes}

@[simp]
theorem handOver_acceptsAll (extractor : MultipartExtractor) (bytes : Bytes) :
    extractor.handOver (some acceptsAll) bytes =
      (true, { extractor with
        payloadBytes := extractor.payloadBytes + UInt64.ofNat bytes.length
        delivered := extractor.delivered ++ [bytes] }) := rfl

/-! ## One piece -/

/-- A delimiter is looked for in what is held back and what has come, and stands in the payload at the
same place. -/
theorem Holding.cutAt_append (hholding : Holding delimiter rest extractor) (data : Bytes) :
    cutAt delimiter (rest ++ data) =
      (cutAt delimiter (extractor.pending ++ data)).map
        fun cut ↦ (extractor.delivered.flatten ++ cut.1, cut.2) := by
  obtain ⟨habsent, rfl, hheld, -⟩ := hholding
  have hlong : extractor.delivered.flatten = [] ∨ delimiter.length ≤ extractor.pending.length + 1 := by
    by_cases hnil : extractor.delivered.flatten = []
    · exact .inl hnil
    · have hlength := length_pos_iff.mpr hnil
      rw [length_append] at hheld
      exact .inr (by omega)
  rw [append_assoc]
  exact cutAt_append_of_not_infix habsent hlong data

theorem Holding.consume (hdelimiter : delimiter ≠ []) (hholding : Holding delimiter rest extractor)
    (data : Bytes) :
    Holding delimiter (rest ++ data) (extractor.consume (some acceptsAll) data).2 ∨
      Done delimiter (rest ++ data) (extractor.consume (some acceptsAll) data).2 := by
  have hfind := hholding.cutAt_append data
  obtain ⟨-, hwhole, hheld, hunfinished, hstarted, hunfailed, rfl⟩ := hholding
  unfold MultipartExtractor.consume
  dsimp only
  cases hcut : cutAt extractor.delimiter (extractor.pending ++ data) with
  | some cut =>
    rw [hcut, map_some] at hfind
    refine .inr ?_
    by_cases hnil : cut.1 = []
    · simp only [if_pos hnil, if_true]
      rw [hnil, append_nil] at hfind
      exact ⟨⟨cut.2, hfind⟩, rfl, hunfailed⟩
    · simp only [if_neg hnil, handOver_acceptsAll, if_true]
      exact ⟨⟨cut.2, by simpa using hfind⟩, rfl, hunfailed⟩
  | none =>
    rw [hcut, map_none] at hfind
    have habsent := cutAt_eq_none_iff.mp hfind
    have hdelimiterLength := length_pos_iff.mpr hdelimiter
    have hlength := congrArg List.length hwhole
    rw [length_append] at hlength
    refine .inl ?_
    by_cases hlong : extractor.delimiter.length - 1 < (extractor.pending ++ data).length
    · simp only [if_pos hlong, handOver_acceptsAll, if_true]
      refine ⟨habsent, ?_, ?_, hunfinished, hstarted, hunfailed, rfl⟩
      · simp [← hwhole]
      · simp only [length_append] at hlong ⊢
        simp
        omega
    · simp only [if_neg hlong]
      refine ⟨habsent, ?_, ?_, hunfinished, hstarted, hunfailed, rfl⟩
      · rw [← append_assoc, hwhole]
      · simp only [length_append] at hlong ⊢
        omega

def TooLong (text : Bytes) : Prop := kMaxHeaderBytes < text.length ∧ ¬headerEnd <:+: text

theorem infix_of_cutAt {pattern before behind : Bytes} (hcut : cutAt pattern text = some (before, behind)) :
    pattern <:+: text :=
  ⟨before, behind, (eq_of_cutAt hcut).symm⟩

theorem holding_nil (extractor : MultipartExtractor) (hdelimiter : extractor.delimiter ≠ [])
    (hpending : extractor.pending = []) (hdelivered : extractor.delivered = [])
    (hunfinished : extractor.dataDone = false) (hstarted : extractor.dataStarted)
    (hunfailed : extractor.failed = false) :
    Holding extractor.delimiter [] extractor where
  absent := fun hinside ↦ hdelimiter (infix_nil.mp hinside)
  whole := by rw [hpending, hdelivered]; rfl
  held := by simp [hpending]
  unfinished := hunfinished
  started := hstarted
  unfailed := hunfailed
  delimiter := rfl

theorem Reading.goes_on (hreading : Reading delimiter text extractor) :
    ¬(extractor.failed || extractor.dataDone) ∧ (!extractor.dataStarted) := by
  rw [hreading.unfailed, hreading.unfinished, hreading.unstarted]
  decide

theorem Reading.feed (hdelimiter : delimiter ≠ []) (hreading : Reading delimiter text extractor)
    (hdata : data ≠ []) (hfits : ¬TooLong (text ++ data)) :
    Stage delimiter (text ++ data) (extractor.feed (some acceptsAll) data).2 := by
  obtain ⟨hopen, hfirst⟩ := hreading.goes_on
  obtain ⟨-, rfl, hpending, hdelivered, hunfinished, hunstarted, hunfailed, rfl⟩ := hreading
  unfold MultipartExtractor.feed
  rw [if_neg hopen, if_neg hdata, if_pos hfirst]
  dsimp only
  cases hcut : cutAt headerEnd (extractor.headerAcc ++ data) with
  | none =>
    have habsent := cutAt_eq_none_iff.mp hcut
    have hshort : ¬kMaxHeaderBytes < (extractor.headerAcc ++ data).length :=
      fun hlong ↦ hfits ⟨hlong, habsent⟩
    simp only [if_neg hshort]
    exact .reading ⟨habsent, rfl, hpending, hdelivered, hunfinished, hunstarted, hunfailed, rfl⟩
  | some cut =>
    have hempty := holding_nil { extractor with headerAcc := [], dataStarted := true } hdelimiter
      hpending hdelivered hunfinished rfl hunfailed
    by_cases hpayload : cut.2 = []
    · simp only [hpayload, ne_eq, not_true_eq_false, if_false]
      exact .holding cut.1 [] (by rw [hcut, ← hpayload]) hempty
    · simp only [ne_eq, hpayload, not_false_eq_true, if_true]
      rcases hempty.consume hdelimiter cut.2 with hholding | hdone
      · exact .holding cut.1 cut.2 hcut hholding
      · exact .done cut.1 cut.2 hcut hdone

theorem Stage.feed (hdelimiter : delimiter ≠ []) (hstage : Stage delimiter text extractor)
    (hfits : ¬TooLong (text ++ data)) :
    Stage delimiter (text ++ data) (extractor.feed (some acceptsAll) data).2 := by
  cases hstage with
  | reading hreading =>
    by_cases hdata : data = []
    · subst hdata
      rw [append_nil]
      simp only [MultipartExtractor.feed, hreading.unfailed, hreading.unfinished, Bool.or_self,
        Bool.false_eq_true, if_false, if_true]
      exact .reading hreading
    · exact hreading.feed hdelimiter hdata hfits
  | holding header rest hcut hholding =>
    have hlater := cutAt_append hcut data
    simp only [MultipartExtractor.feed, hholding.unfailed, hholding.unfinished, hholding.started,
      Bool.or_self, Bool.not_true, Bool.false_eq_true, if_false]
    split_ifs with hdata
    · rw [hdata, append_nil]
      exact .holding header rest hcut hholding
    · rcases hholding.consume hdelimiter data with hmore | hdone
      · exact .holding header (rest ++ data) hlater hmore
      · exact .done header (rest ++ data) hlater hdone
  | done header rest hcut hdone =>
    obtain ⟨⟨behind, hpayload⟩, hfinished, hunfailed⟩ := hdone
    have hstays : (extractor.feed (some acceptsAll) data).2 = extractor := by
      simp [MultipartExtractor.feed, hfinished]
    rw [hstays]
    exact .done header (rest ++ data) (cutAt_append hcut data)
      ⟨⟨behind ++ data, cutAt_append hpayload data⟩, hfinished, hunfailed⟩

/-- A header that has become too long fails the extractor, and nothing has gone to the sink. -/
theorem Stage.feed_tooLong (hstage : Stage delimiter text extractor) (hbefore : ¬TooLong text)
    (hlong : TooLong (text ++ data)) :
    (extractor.feed (some acceptsAll) data).2.failed ∧
      (extractor.feed (some acceptsAll) data).2.delivered = [] := by
  obtain ⟨hlength, habsent⟩ := hlong
  have hfront : ¬headerEnd <:+: text :=
    fun hinside ↦ habsent (hinside.trans (prefix_append text data).isInfix)
  have hdata : data ≠ [] := by
    rintro rfl
    rw [append_nil] at hlength
    exact hbefore ⟨hlength, hfront⟩
  cases hstage with
  | reading hreading =>
    obtain ⟨hopen, hfirst⟩ := hreading.goes_on
    obtain rfl := hreading.header
    unfold MultipartExtractor.feed
    rw [if_neg hopen, if_neg hdata, if_pos hfirst]
    simp only [cutAt_eq_none_iff.mpr habsent, if_pos hlength]
    exact ⟨trivial, hreading.delivered⟩
  | holding header rest hcut hholding => exact absurd (infix_of_cutAt hcut) hfront
  | done header rest hcut hdone => exact absurd (infix_of_cutAt hcut) hfront

theorem run_concat (boundary : Bytes) (pieces : List Bytes) (piece : Bytes) :
    run boundary (pieces ++ [piece]) = ((run boundary pieces).feed (some acceptsAll) piece).2 := by
  rw [run, foldl_append]
  rfl

theorem overruns_concat {piece : Bytes} :
    Overruns (pieces ++ [piece]) ↔ Overruns pieces ∨ TooLong (pieces ++ [piece]).flatten := by
  constructor
  · rintro ⟨front, hfront, hlong⟩
    rcases prefix_concat_iff.mp hfront with rfl | hbefore
    · exact .inr hlong
    · exact .inl ⟨front, hbefore, hlong⟩
  · rintro (⟨front, hfront, hlong⟩ | hlong)
    · exact ⟨front, hfront.trans (prefix_append _ _), hlong⟩
    · exact ⟨_, prefix_rfl, hlong⟩

theorem delimiterOf_ne_nil (boundary : Bytes) : delimiterOf boundary ≠ [] := cons_ne_nil _ _

theorem run_stage (hboundary : boundary ≠ []) (pieces : List Bytes) :
    (Overruns pieces → (run boundary pieces).failed ∧ (run boundary pieces).delivered = []) ∧
      (¬Overruns pieces → Stage (delimiterOf boundary) pieces.flatten (run boundary pieces)) := by
  induction pieces using reverseRecOn with
  | nil =>
    constructor
    · rintro ⟨front, hfront, hlong, -⟩
      rw [prefix_nil.mp hfront] at hlong
      exact absurd hlong (Nat.not_lt_zero _)
    · intro _
      exact .reading ⟨by decide, rfl, rfl, rfl, rfl, rfl, decide_eq_false hboundary, rfl⟩
  | append_singleton pieces piece ih =>
    rw [run_concat, overruns_concat]
    have hflatten : (pieces ++ [piece]).flatten = pieces.flatten ++ piece := by simp
    rw [hflatten]
    by_cases hbefore : Overruns pieces
    · obtain ⟨hfailed, hdelivered⟩ := ih.1 hbefore
      have hstays : ((run boundary pieces).feed (some acceptsAll) piece).2 = run boundary pieces := by
        simp [MultipartExtractor.feed, hfailed]
      rw [hstays]
      exact ⟨fun _ ↦ ⟨hfailed, hdelivered⟩, fun hnone ↦ absurd (.inl hbefore) hnone⟩
    · have hstage := ih.2 hbefore
      have hshort : ¬TooLong pieces.flatten := fun hlong ↦ hbefore ⟨pieces, prefix_rfl, hlong⟩
      exact ⟨fun hoverruns ↦ hstage.feed_tooLong hshort (hoverruns.resolve_left hbefore),
        fun hnone ↦ hstage.feed (delimiterOf_ne_nil boundary) fun hlong ↦ hnone (.inr hlong)⟩

/-! ## What comes out -/

/-- What the extractor makes of a whole body, if no header has been found too long. -/
def extracted (delimiter body : Bytes) : Bool × Bytes :=
  match cutAt headerEnd body with
  | none => (false, [])
  | some (_, rest) =>
    match cutAt delimiter rest with
    | none => (false, rest.take (rest.length - (delimiter.length - 1)))
    | some (payload, _) => (true, payload)

theorem Stage.outcome (hstage : Stage delimiter text extractor) :
    (extractor.finish, extractor.delivered.flatten) = extracted delimiter text := by
  cases hstage with
  | reading hreading =>
    simp [extracted, cutAt_eq_none_iff.mpr hreading.absent, finish, hreading.unfailed,
      hreading.unfinished, hreading.delivered]
  | holding header rest hcut hholding =>
    have hlength := congrArg List.length hholding.whole
    have hheld := hholding.held
    rw [length_append] at hlength
    have hcount : rest.length - (delimiter.length - 1) = extractor.delivered.flatten.length := by omega
    have hfront : rest.take (rest.length - (delimiter.length - 1)) = extractor.delivered.flatten := by
      rw [hcount, ← hholding.whole, take_left]
    simp [extracted, hcut, cutAt_eq_none_iff.mpr hholding.absent, hfront, finish, hholding.unfailed,
      hholding.unfinished]
  | done header rest hcut hdone =>
    obtain ⟨⟨behind, hpayload⟩, hfinished, hunfailed⟩ := hdone
    simp [extracted, hcut, hpayload, finish, hfinished, hunfailed]

theorem outcome_of_overruns (hboundary : boundary ≠ []) (hoverruns : Overruns pieces) :
    outcome boundary pieces = (false, []) := by
  obtain ⟨hfailed, hdelivered⟩ := (run_stage hboundary pieces).1 hoverruns
  simp [outcome, finish, hfailed, hdelivered]

theorem outcome_of_not_overruns (hboundary : boundary ≠ []) (hoverruns : ¬Overruns pieces) :
    outcome boundary pieces = extracted (delimiterOf boundary) pieces.flatten :=
  ((run_stage hboundary pieces).2 hoverruns).outcome

theorem encloses_of_extracted (hextracted : (extracted delimiter text).1) :
    Encloses delimiter text (extracted delimiter text).2 := by
  unfold extracted at hextracted ⊢
  split at hextracted
  case h_1 => cases hextracted
  case h_2 header rest hcut =>
    split at hextracted
    case h_1 => cases hextracted
    case h_2 payload behind hpayload =>
      refine ⟨header, rest, behind, hcut, ?_⟩
      simp [hpayload]

theorem encloses_of_finish (hboundary : boundary ≠ []) (hfinished : (outcome boundary pieces).1) :
    Encloses (delimiterOf boundary) pieces.flatten (outcome boundary pieces).2 := by
  by_cases hoverruns : Overruns pieces
  · rw [outcome_of_overruns hboundary hoverruns] at hfinished
    cases hfinished
  · rw [outcome_of_not_overruns hboundary hoverruns] at hfinished ⊢
    exact encloses_of_extracted hfinished

theorem extracted_eq_nothing_iff (hdelimiter : delimiter ≠ []) :
    extracted delimiter text = (false, []) ↔ NothingOut delimiter text := by
  have hlength := length_pos_iff.mpr hdelimiter
  unfold extracted NothingOut
  cases hcut : cutAt headerEnd text with
  | none => simp
  | some cut =>
    obtain ⟨header, rest⟩ := cut
    cases hpayload : cutAt delimiter rest with
    | none =>
      have habsent := cutAt_eq_none_iff.mp hpayload
      simp only [hpayload]
      constructor
      · intro hnothing same other hsame
        cases hsame
        have hcount := congrArg List.length (Prod.mk.inj hnothing).2
        rw [length_take, length_nil] at hcount
        exact ⟨habsent, by omega⟩
      · intro hnothing
        obtain ⟨-, hshort⟩ := hnothing header rest rfl
        rw [Nat.sub_eq_zero_of_le (Nat.le_sub_one_of_lt hshort), take_zero]
    | some inner =>
      have hinside := infix_of_cutAt hpayload
      simp only [hpayload]
      refine iff_of_false (fun hnothing ↦ ?_) fun hnothing ↦ (hnothing header rest rfl).1 hinside
      exact Bool.false_ne_true (Prod.mk.inj hnothing).1.symm

theorem not_overruns_of_short (hshort : pieces.flatten.length ≤ kMaxHeaderBytes) : ¬Overruns pieces := by
  rintro ⟨front, ⟨behind, rfl⟩, hlong, -⟩
  rw [flatten_append, length_append] at hshort
  omega

/-- Two cuttings come to the same where both pass the limit at the end of a piece or neither does, or
where nothing would go to the sink anyway. -/
theorem independent_of_cuts_iff (hboundary : boundary ≠ []) (hbody : pieces.flatten = others.flatten) :
    IndependentOfCuts boundary pieces others ↔
      (Overruns pieces ↔ Overruns others) ∨ NothingOut (delimiterOf boundary) pieces.flatten := by
  have hsame : IndependentOfCuts boundary pieces others ↔
      outcome boundary pieces = outcome boundary others := by
    refine ⟨IndependentOfCuts.same, fun hsame ↦ ⟨hsame, fun cutting _ hfinished ↦ ?_⟩⟩
    exact encloses_of_finish hboundary hfinished
  rw [hsame, ← extracted_eq_nothing_iff (delimiterOf_ne_nil boundary)]
  by_cases hpieces : Overruns pieces
  · by_cases hothers : Overruns others
    · rw [outcome_of_overruns hboundary hpieces, outcome_of_overruns hboundary hothers]
      simp [hpieces, hothers]
    · rw [outcome_of_overruns hboundary hpieces, outcome_of_not_overruns hboundary hothers, ← hbody]
      simp [hpieces, hothers, eq_comm]
  · by_cases hothers : Overruns others
    · rw [outcome_of_not_overruns hboundary hpieces, outcome_of_overruns hboundary hothers]
      simp [hpieces, hothers]
    · rw [outcome_of_not_overruns hboundary hpieces, outcome_of_not_overruns hboundary hothers, hbody]
      simp [hpieces, hothers]

/-- The blank line and the delimiter each begin in the first piece and end in the second. -/
theorem independent_of_cuts_of_split :
    IndependentOfCuts (ascii "b") [ascii "h\r\n", ascii "\r\nx\r\n--", ascii "b--"]
      [ascii "h\r\n\r\nx\r\n--b--"] :=
  (independent_of_cuts_iff (by decide) (by decide)).mpr
    (.inl (iff_of_false (not_overruns_of_short (by decide)) (not_overruns_of_short (by decide))))

def shortBody : Bytes := ascii "\r\n\r\nx\r\n--b"

section LongHeader

variable (hletters : (0x0D : UInt8) ∉ header)

include hletters

theorem cutAt_longHeader : cutAt headerEnd (header ++ shortBody) = some (header, ascii "x\r\n--b") := by
  have hbody : cutAt [0x0D, 0x0A, 0x0D, 0x0A] shortBody = some ([], ascii "x\r\n--b") := by decide
  rw [headerEnd, cutAt_append_of_notMem hletters, hbody, map_some, append_nil]

theorem outcome_longHeader : outcome (ascii "b") [header ++ shortBody] = (true, ascii "x") := by
  have hcut := cutAt_longHeader hletters
  have hwhole : ¬Overruns [header ++ shortBody] := by
    rintro ⟨front, hfront, hlong, habsent⟩
    rcases prefix_cons_iff.mp hfront with rfl | ⟨rest, rfl, hrest⟩
    · exact absurd hlong (Nat.not_lt_zero _)
    · rw [prefix_nil.mp hrest, flatten_singleton] at habsent
      exact habsent (infix_of_cutAt hcut)
  have hpayload : cutAt (delimiterOf (ascii "b")) (ascii "x\r\n--b") = some (ascii "x", []) := by decide
  rw [outcome_of_not_overruns (by decide) hwhole, flatten_singleton]
  simp [extracted, hcut, hpayload]

theorem outcome_longHeader_cut (hlong : kMaxHeaderBytes < header.length) :
    outcome (ascii "b") [header, shortBody] = (false, []) := by
  refine outcome_of_overruns (by decide) ⟨[header], ⟨[shortBody], rfl⟩, ?_, ?_⟩
  · rwa [flatten_singleton]
  · rw [flatten_singleton]
    exact fun hinside ↦ hletters (hinside.subset (by decide))

end LongHeader

/-- A header of more than the limit: in one piece the body gives its payload, cut behind the header it
fails. -/
theorem depends_on_cuts : outcome (ascii "b") [List.replicate 8193 0x61 ++ shortBody] = (true, ascii "x") ∧
      outcome (ascii "b") [List.replicate 8193 0x61, shortBody] = (false, []) ∧
      ¬IndependentOfCuts (ascii "b") [List.replicate 8193 0x61, shortBody]
        [List.replicate 8193 0x61 ++ shortBody] := by
  have hletters : (0x0D : UInt8) ∉ List.replicate 8193 (0x61 : UInt8) :=
    fun hmem ↦ absurd (eq_of_mem_replicate hmem) (by decide)
  have hlong : kMaxHeaderBytes < (List.replicate 8193 (0x61 : UInt8)).length := by
    rw [length_replicate]
    decide
  have hgood := outcome_longHeader hletters
  have hbad := outcome_longHeader_cut hletters hlong
  refine ⟨hgood, hbad, fun hindependent ↦ ?_⟩
  have hsame := hindependent.same
  rw [hgood, hbad] at hsame
  cases hsame

end DhcpServer.Web.Multipart
