import DhcpServer.Library.JsonSpelling
import DhcpServer.Storage.PathUtil
import DhcpServer.Web.QuotedNames

/-!
# The paths of a transfer

`jsonGetStrArray` takes what stands between quotes from the first `[` behind the key to the first `]` behind
that. No name can hold a quote, but a name can hold a `]`, and a `[` can stand between the first place that
looks like the key and the list.
-/

namespace DhcpServer.Web.Json

open Library JsonText Storage.PathUtil List Option

def openingBracket : UInt8 := 0x5B
def closingBracket : UInt8 := 0x5D

def kMaxItems : Nat := 512

def quotedItems : (maxItems : Nat) → Bytes → List Bytes
  | 0, _ => []
  | maxItems + 1, text =>
    match cutAt [quote] text with
    | none => []
    | some (_, opened) =>
      match cutAt [quote] opened with
      | none => []
      | some (item, rest) => item :: quotedItems maxItems rest

def jsonGetStrArray (json key : Bytes) (maxItems : Nat) : List Bytes :=
  match find (needle key) json with
  | none => []
  | some named =>
    match cutAt [openingBracket] named with
    | none => []
    | some (_, opened) =>
      match cutAt [closingBracket] opened with
      | none => []
      | some (inside, _) => quotedItems maxItems inside

def listText (paths : List Bytes) (rest : Bytes) : Bytes := arrayWritten stringified paths rest

theorem listText_append (paths : List Bytes) (first second : Bytes) :
    listText paths (first ++ second) = listText paths first ++ second := by
  cases paths with
  | nil => rfl
  | cons path paths =>
    have hitems := itemsAfter_append stringified_append paths (0x5D :: first) second
    rw [listText, arrayWritten, ← cons_append, hitems, stringified_append]
    rfl

/-- What surrounds the list in a body: the other members and the white space. -/
structure ListBody where
  outerLead : Spaces
  before : List (Member Token)
  lead : Spaces
  beforeColon : Spaces
  afterColon : Spaces
  trail : Spaces
  after : List (Member Token)
  outerTrail : Spaces

namespace ListBody

/-- The list is a member of the body under the key `paths`. -/
def object (body : ListBody) (paths : List Bytes) : Object Token :=
  .compact (body.before ++
    ⟨body.lead, plainPieces (ascii "paths"), body.beforeColon, body.afterColon, .other (listText paths []),
      body.trail⟩ :: body.after)

def written (body : ListBody) (paths : List Bytes) : Bytes :=
  body.outerLead.val ++ (body.object paths).written Token.written body.outerTrail.val

/-- The members in front of the list, each with its comma. -/
def membersBefore (members : List (Member Token)) (rest : Bytes) : Bytes :=
  members.foldr (fun member rest ↦ member.written Token.written (0x2C :: rest)) rest

def beforeKey (body : ListBody) : Bytes :=
  body.outerLead.val ++ 0x7B :: membersBefore body.before body.lead.val

def gap (body : ListBody) : Bytes := body.beforeColon.val ++ colon :: body.afterColon.val

def front (body : ListBody) : Bytes := body.beforeKey ++ needle (ascii "paths") ++ body.gap

def back (body : ListBody) : Bytes :=
  body.trail.val ++ following Token.written body.after body.outerTrail.val

/-- The text in front of the list, from the first place on that looks like the key. -/
def named (body : ListBody) : Bytes := (find (needle (ascii "paths")) body.front).getD []

variable (body : ListBody) (paths : List Bytes)

theorem membersBefore_append (members : List (Member Token)) (first second : Bytes) :
    membersBefore members (first ++ second) = membersBefore members first ++ second := by
  induction members with
  | nil => rfl
  | cons member members ih =>
    have hmember :=
      JsonText.written_append Token.written_append member (0x2C :: membersBefore members first) second
    rw [membersBefore, foldr_cons, ← membersBefore, ih, ← cons_append, hmember]
    rfl

theorem following_append_cons (before : List (Member Token)) (member : Member Token) (rest : Bytes)
    (after : List (Member Token)) :
    (Object.compact (before ++ member :: after)).written Token.written rest =
      0x7B :: membersBefore before (member.written Token.written (following Token.written after rest)) := by
  cases before with
  | nil => rfl
  | cons first before =>
    change 0x7B :: first.written Token.written (following Token.written (before ++ member :: after) rest) = _
    have hfollowing : following Token.written (before ++ member :: after) rest =
        0x2C :: membersBefore before (member.written Token.written (following Token.written after rest)) := by
      induction before with
      | nil => rfl
      | cons second before ih => rw [cons_append, following, ih]; rfl
    rw [hfollowing]
    rfl

theorem written_eq : body.written paths = body.front ++ listText paths body.back := by
  have hkey (rest : Bytes) : piecesWritten (plainPieces (ascii "paths")) rest = ascii "paths" ++ rest :=
    piecesWritten_plainPieces (by decide +kernel) rest
  have hlead (rest : Bytes) : membersBefore body.before (body.lead.val ++ rest) =
      membersBefore body.before body.lead.val ++ rest := membersBefore_append body.before _ _
  have hlist : listText paths body.back = listText paths [] ++ body.back :=
    listText_append paths [] body.back
  rw [written, object, following_append_cons, Member.written, hlead, hkey, Member.assigned, hlist]
  simp only [Token.written, front, beforeKey, gap, back, needle, append_assoc, cons_append, nil_append]
  rfl

end ListBody

section Reading

variable {text inside behind lead path rest : Bytes} {paths : List Bytes} {maxItems : Nat}

theorem quotedItems_of_notMem (htext : quote ∉ text) : quotedItems maxItems text = [] := by
  cases maxItems with
  | zero => rfl
  | succ maxItems =>
    have hnone : cutAt [quote] text = none :=
      cutAt_eq_none_iff.mpr fun hinside ↦ htext (hinside.subset (mem_singleton_self _))
    rw [quotedItems, hnone]

theorem quotedItems_cons (hlead : quote ∉ lead) (hpath : quote ∉ path) (rest : Bytes) :
    quotedItems (maxItems + 1) (lead ++ quote :: (path ++ quote :: rest)) =
      path :: quotedItems maxItems rest := by
  rw [quotedItems, cutAt_singleton hlead]
  dsimp only
  rw [cutAt_singleton hpath]

theorem quotedItems_open (hlead : quote ∉ lead) (hpath : quote ∉ path) :
    quotedItems maxItems (lead ++ quote :: path) = [] := by
  cases maxItems with
  | zero => rfl
  | succ maxItems =>
    have hnone : cutAt [quote] path = none :=
      cutAt_eq_none_iff.mpr fun hinside ↦ hpath (hinside.subset (mem_singleton_self _))
    rw [quotedItems, cutAt_singleton hlead]
    dsimp only
    rw [hnone]

/-- The loop takes these paths from a text up to its first `]`. -/
def Takes (maxItems : Nat) (text : Bytes) (paths : List Bytes) : Prop :=
  ∃ inside rest, cutAt [closingBracket] text = some (inside, rest) ∧ quotedItems maxItems inside = paths

def IsPlain (path : Bytes) : Prop := ∀ byte ∈ path, 0x20 ≤ byte ∧ byte ≠ quote ∧ byte ≠ backslash

theorem IsPlain.quote_notMem (hplain : IsPlain path) : quote ∉ path := fun hmem ↦ (hplain quote hmem).2.1 rfl

theorem Takes.cons (lead : Bytes) (hplain : IsPlain path) (hlead : quote ∉ lead)
    (hbracket : closingBracket ∉ lead) (hrest : Takes maxItems text (paths.takeWhile (closingBracket ∉ ·))) :
    Takes (maxItems + 1) (lead ++ stringified path text)
      ((path :: paths).takeWhile (closingBracket ∉ ·)) := by
  have hquote := hplain.quote_notMem
  rw [stringified_plain hplain]
  by_cases hpath : closingBracket ∈ path
  · obtain ⟨start, later, rfl, hstart⟩ := eq_append_cons_of_mem hpath
    have hstartQuote : quote ∉ start := fun hmem ↦ hquote (mem_append_left _ hmem)
    have hchunk : closingBracket ∉ lead ++ quote :: start := by
      simp only [mem_append, mem_cons, not_or]
      exact ⟨hbracket, by decide, hstart⟩
    have htext : lead ++ quote :: (start ++ closingBracket :: later ++ quote :: text) =
        lead ++ quote :: start ++ closingBracket :: (later ++ quote :: text) := by simp
    refine ⟨lead ++ quote :: start, later ++ quote :: text, ?_, ?_⟩
    · change cutAt [closingBracket] (lead ++ quote :: (start ++ closingBracket :: later ++ quote :: text)) = _
      rw [htext, cutAt_singleton hchunk]
    · rw [quotedItems_open hlead hstartQuote, takeWhile_cons, if_neg (by simp)]
  · obtain ⟨inside, rest, hcut, hitems⟩ := hrest
    have hchunk : closingBracket ∉ lead ++ quote :: (path ++ [quote]) := by
      simp only [mem_append, mem_cons, not_mem_nil, or_false, not_or]
      exact ⟨hbracket, by decide, hpath, by decide⟩
    have htext : lead ++ quote :: (path ++ quote :: text) =
        lead ++ quote :: (path ++ [quote]) ++ text := by simp
    refine ⟨lead ++ quote :: (path ++ [quote]) ++ inside, rest, ?_, ?_⟩
    · change cutAt [closingBracket] (lead ++ quote :: (path ++ quote :: text)) = _
      rw [htext, cutAt_append_of_notMem hchunk, hcut]
      rfl
    · have hinside : lead ++ quote :: (path ++ [quote]) ++ inside =
          lead ++ quote :: (path ++ quote :: inside) := by simp
      rw [hinside, quotedItems_cons hlead hquote, hitems, takeWhile_cons, if_pos (by simpa using hpath)]

theorem quotedItems_ne_nil (hquotes : 1 < text.count quote) : quotedItems (maxItems + 1) text ≠ [] := by
  obtain ⟨before, opened, rfl, hbefore⟩ :=
    eq_append_cons_of_mem (count_pos_iff.mp (Nat.lt_of_succ_lt hquotes))
  have hopened : quote ∈ opened := by
    rw [count_append, count_eq_zero_of_not_mem hbefore, count_cons_self] at hquotes
    exact count_pos_iff.mp (by omega)
  obtain ⟨item, rest, rfl, hitem⟩ := eq_append_cons_of_mem hopened
  rw [quotedItems_cons hbefore hitem]
  exact cons_ne_nil _ _

theorem takes_itemsAfter (hplain : ∀ path ∈ paths, IsPlain path) (hcount : paths.length ≤ maxItems)
    (behind : Bytes) :
    Takes maxItems (itemsAfter stringified paths (closingBracket :: behind))
      (paths.takeWhile (closingBracket ∉ ·)) := by
  induction paths generalizing maxItems with
  | nil =>
    exact ⟨[], behind, cutAt_singleton not_mem_nil behind, quotedItems_of_notMem not_mem_nil⟩
  | cons path paths ih =>
    obtain ⟨hpath, hpaths⟩ := forall_mem_cons.mp hplain
    cases maxItems with
    | zero => exact absurd hcount (by simp)
    | succ maxItems =>
      exact Takes.cons [0x2C] hpath (by decide) (by decide)
        (ih hpaths (Nat.le_of_succ_le_succ hcount))

theorem exists_takes (hplain : ∀ path ∈ paths, IsPlain path) (hcount : paths.length ≤ maxItems)
    (behind : Bytes) : ∃ opened, listText paths behind = openingBracket :: opened ∧
      Takes maxItems opened (paths.takeWhile (closingBracket ∉ ·)) := by
  cases paths with
  | nil => exact ⟨closingBracket :: behind, rfl, takes_itemsAfter hplain hcount behind⟩
  | cons path paths =>
    obtain ⟨hpath, hpaths⟩ := forall_mem_cons.mp hplain
    cases maxItems with
    | zero => exact absurd hcount (by simp)
    | succ maxItems =>
      exact ⟨_, rfl, Takes.cons [] hpath (by decide) (by decide)
        (takes_itemsAfter hpaths (Nat.le_of_succ_le_succ hcount) behind)⟩

end Reading

theorem isPlain_of_normalize {path : Bytes} (haccepted : (normalize path).isSome) : IsPlain path := by
  intro byte hbyte
  rcases valid_of_normalize haccepted byte hbyte with rfl | hvalid
  · decide
  · simp only [Storage.PathUtil.isValidChar, Bool.and_eq_true, decide_eq_true_eq, bne_iff_ne] at hvalid
    obtain ⟨⟨⟨⟨⟨⟨⟨⟨⟨⟨hprinted, -⟩, -⟩, hslash⟩, hquote⟩, -⟩, -⟩, -⟩, -⟩, -⟩, -⟩ := hvalid
    exact ⟨hprinted, hquote, hslash⟩

namespace ListBody

variable (body : ListBody) {paths : List Bytes}

theorem find_front : find (needle (ascii "paths")) body.front = some body.named := by
  rw [named]
  cases hfind : find (needle (ascii "paths")) body.front with
  | some text => rfl
  | none =>
    exfalso
    rw [needle, cons_append, find_eq_cutAt, map_eq_none_iff, cutAt_eq_none_iff] at hfind
    exact hfind ⟨body.beforeKey, body.gap, rfl⟩

theorem find_written : find (needle (ascii "paths")) (body.written paths) =
    some (body.named ++ listText paths body.back) := by
  have hfront := body.find_front
  rw [needle, cons_append, find_eq_cutAt] at hfront ⊢
  obtain ⟨⟨before, behind⟩, hcut, hnamed⟩ := map_eq_some_iff.mp hfront
  rw [written_eq, cutAt_append hcut, ← hnamed]
  simp

theorem read_eq_takeWhile (hopening : openingBracket ∉ body.named) (hplain : ∀ path ∈ paths, IsPlain path)
    (hcount : paths.length ≤ kMaxItems) :
    jsonGetStrArray (body.written paths) (ascii "paths") kMaxItems =
      paths.takeWhile (closingBracket ∉ ·) := by
  obtain ⟨opened, hlist, inside, rest, hcut, hitems⟩ := exists_takes hplain hcount body.back
  rw [jsonGetStrArray, find_written]
  dsimp only
  rw [hlist, cutAt_singleton hopening]
  dsimp only
  rw [hcut]
  exact hitems

theorem key_suffix {front behind : Bytes} (hfront : body.front = front ++ openingBracket :: behind) :
    needle (ascii "paths") ++ body.gap <:+ behind := by
  have hspaces (spaces : Spaces) : openingBracket ∉ spaces.val :=
    fun hmem ↦ absurd (spaces.property _ hmem) (by decide)
  have hkey : openingBracket ∉ needle (ascii "paths") ++ body.gap := by
    simp only [gap, mem_append, mem_cons, not_or]
    exact ⟨by decide, hspaces _, by decide, hspaces _⟩
  rw [ListBody.front, append_assoc] at hfront
  rcases append_eq_append_iff.mp hfront with ⟨more, -, hbehind⟩ | ⟨more, -, hbehind⟩
  · exact absurd (hbehind ▸ mem_append_right _ mem_cons_self) hkey
  · cases more with
    | nil => exact absurd (hbehind ▸ mem_cons_self) hkey
    | cons first more =>
      rw [cons_append] at hbehind
      exact ⟨more, (cons.inj hbehind).2.symm⟩

/-- Behind another `[` the same is read whatever the list is, or something where the list is empty. -/
theorem not_both_read (hopening : openingBracket ∈ body.named) (path : Bytes)
    (hnone : jsonGetStrArray (body.written []) (ascii "paths") kMaxItems = []) :
    jsonGetStrArray (body.written [path]) (ascii "paths") kMaxItems ≠ [path] := by
  obtain ⟨start, behind, hnamed, hstart⟩ := eq_append_cons_of_mem hopening
  have hopened (paths : List Bytes) : cutAt [openingBracket] (body.named ++ listText paths body.back) =
      some (start, behind ++ listText paths body.back) := by
    rw [hnamed, append_assoc, cons_append, cutAt_singleton hstart]
  rw [jsonGetStrArray, find_written] at hnone ⊢
  dsimp only at hnone ⊢
  rw [hopened] at hnone ⊢
  dsimp only at hnone ⊢
  by_cases hclosing : closingBracket ∈ behind
  · obtain ⟨inside, rest, rfl, hinside⟩ := eq_append_cons_of_mem hclosing
    rw [append_assoc, cons_append, cutAt_singleton hinside] at hnone ⊢
    rw [hnone]
    exact cons_ne_nil _ _ |>.symm
  · -- the first `]` is that of the list, and the key stands between
    exfalso
    have hlist : behind ++ listText [] body.back =
        behind ++ [openingBracket] ++ closingBracket :: body.back := by
      rw [listText, arrayWritten, append_assoc]
      rfl
    have hinside : closingBracket ∉ behind ++ [openingBracket] := by
      simp only [mem_append, mem_singleton, not_or]
      exact ⟨hclosing, by decide⟩
    rw [hlist, cutAt_singleton hinside] at hnone
    refine quotedItems_ne_nil ?_ hnone
    have hfront := body.find_front
    rw [needle, cons_append, find_eq_cutAt] at hfront
    obtain ⟨⟨before, rest⟩, hcut, hbefore⟩ := map_eq_some_iff.mp hfront
    have hwhole := eq_of_cutAt hcut
    rw [append_assoc, hbefore, hnamed, ← append_assoc] at hwhole
    obtain ⟨more, hmore⟩ := body.key_suffix hwhole
    have hkey : (needle (ascii "paths")).count quote = 2 := by decide
    rw [← hmore, count_append, count_append, count_append, hkey]
    omega

/-- **Path lists.** All lists of paths that can be selected arrive as they were sent if and only if none of
these paths holds a `]` and no `[` stands between the first place that looks like the key and the list. -/
theorem arrive_iff (selectable : Set Bytes) (hsome : selectable.Nonempty)
    (haccepted : ∀ path ∈ selectable, (normalize path).isSome = true) :
    (∀ paths : List Bytes, paths.length ≤ 512 → (∀ path ∈ paths, path ∈ selectable) →
        jsonGetStrArray (body.written paths) (ascii "paths") kMaxItems = paths) ↔
      openingBracket ∉ body.named ∧ ∀ path ∈ selectable, closingBracket ∉ path := by
  constructor
  · intro harrive
    have hopening : openingBracket ∉ body.named := by
      intro hopening
      obtain ⟨path, hpath⟩ := hsome
      exact body.not_both_read hopening path (harrive [] (by simp) (by simp))
        (harrive [path] (by simp) (by simpa using hpath))
    refine ⟨hopening, fun path hpath hbracket ↦ ?_⟩
    have hread : jsonGetStrArray (body.written [path]) (ascii "paths") kMaxItems = _ :=
      body.read_eq_takeWhile hopening (by simpa using isPlain_of_normalize (haccepted path hpath))
        (by simp [kMaxItems])
    rw [harrive [path] (by simp) (by simpa using hpath), takeWhile_cons,
      if_neg (by simpa using hbracket)] at hread
    exact cons_ne_nil _ _ hread
  · rintro ⟨hopening, hbrackets⟩ paths hcount hpaths
    have hplain : ∀ path ∈ paths, IsPlain path :=
      fun path hpath ↦ isPlain_of_normalize (haccepted path (hpaths path hpath))
    rw [body.read_eq_takeWhile hopening hplain hcount, takeWhile_eq_self_iff]
    exact fun path hpath ↦ decide_eq_true (hbrackets path (hpaths path hpath))

def plain : ListBody := ⟨noSpaces, [], noSpaces, noSpaces, noSpaces, noSpaces, [], noSpaces⟩

theorem arrive_iff_of_brackets :
    (∀ paths : List Bytes, paths.length ≤ 512 → (∀ path ∈ paths, path ∈ ({ascii "/a]b"} : Set Bytes)) →
        jsonGetStrArray (plain.written paths) (ascii "paths") kMaxItems = paths) ↔
      openingBracket ∉ plain.named ∧ ∀ path ∈ ({ascii "/a]b"} : Set Bytes), closingBracket ∉ path :=
  plain.arrive_iff {ascii "/a]b"} (Set.singleton_nonempty _) (by
    rintro _ rfl
    decide +kernel)

/-- Of two selected files none arrives, since the name of the first holds a `]`. -/
theorem bracket_loses_paths :
    (normalize (ascii "/a]b")).isSome = true ∧ (normalize (ascii "/c")).isSome = true ∧
      jsonGetStrArray (plain.written [ascii "/a]b", ascii "/c"]) (ascii "paths") kMaxItems = [] := by
  decide +kernel

end ListBody

end DhcpServer.Web.Json
