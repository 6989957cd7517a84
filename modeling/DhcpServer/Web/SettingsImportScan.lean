import DhcpServer.Library.JsonGrammar
import DhcpServer.Library.Reads

/-!
# The unknown keys of imported settings

`unknownSettingsKeys` looks at one string after the other. It takes a string for a key by the byte in front of
it and the byte behind it, white space apart. In a document that is what makes a key.

A read behind the end of the body, or in front of it, comes to nothing, and so does a loop that does not end.
-/

namespace DhcpServer.Web.SettingsImportScan

open Library Library.Reads List Option
open JsonReading (quote backslash comma colon opensObject closesObject opensArray closesArray)
open JsonGrammar (IsChars Written IsDocument)
open JsonText (Spaces)

def isJsonSpace (c : UInt8) : Bool := c = 0x20 || c = 0x09 || c = 0x0A || c = 0x0D

/-- The loop up to the quote that is not part of an escape. -/
def tokenEnd (body : Bytes) : (fuel last : Nat) → Option Nat
  | 0, _ => none
  | fuel + 1, last =>
    if last < body.length then do
      let c ← body[last]?
      if c = quote then return last
      else tokenEnd body fuel (if c = backslash then last + 2 else last + 1)
    else return last

def skipBack (body : Bytes) : (fuel before : Nat) → Option Nat
  | 0, _ => none
  | fuel + 1, before =>
    if 0 < before then do
      let c ← body[before - 1]?
      if isJsonSpace c then skipBack body fuel (before - 1) else return before
    else return before

def skipSpaces (body : Bytes) : (fuel after : Nat) → Option Nat
  | 0, _ => none
  | fuel + 1, after =>
    if after < body.length then do
      let c ← body[after]?
      if isJsonSpace c then skipSpaces body fuel (after + 1) else return after
    else return after

def isKeyAt (body : Bytes) (first last : Nat) : Option Bool := do
  let before ← skipBack body (body.length + 1) first
  if before = 0 then return false
  else do
    let c ← body[before - 1]?
    if c ≠ opensObject ∧ c ≠ comma then return false
    else do
      let after ← skipSpaces body (body.length + 1) (last + 1)
      if body.length ≤ after then return false
      else do
        let c ← body[after]?
        return c = colon

def report (known out : List Bytes) (key : Bytes) : List Bytes :=
  if known.contains key then out else if out.contains key then out else out ++ [key]

def scan (body : Bytes) (known : List Bytes) : (fuel i : Nat) → (out : List Bytes) → Option (List Bytes)
  | 0, _, _ => none
  | fuel + 1, i, out =>
    if i < body.length then do
      let c ← body[i]?
      if c ≠ quote then scan body known fuel (i + 1) out
      else do
        let last ← tokenEnd body (body.length + 1) (i + 1)
        if body.length ≤ last then return out
        else do
          let isKey ← isKeyAt body i last
          scan body known fuel (last + 1)
            (if isKey then report known out ((body.drop (i + 1)).take (last - (i + 1))) else out)
    else return out

def unknownSettingsKeys (body : Bytes) (known : List Bytes) : Option (List Bytes) :=
  scan body known (body.length + 1) 0 []

/-- The byte in front of what follows, white space apart. -/
def lastByte (text : Bytes) : Option UInt8 := (text.reverse.dropWhile isJsonSpace).head?

def nextByte (text : Bytes) : Option UInt8 := (text.dropWhile isJsonSpace).head?

def Opens (front : Bytes) : Prop := lastByte front = some opensObject ∨ lastByte front = some comma

def IsKey (front behind : Bytes) : Prop := Opens front ∧ nextByte behind = some colon

instance (front behind : Bytes) : Decidable (IsKey front behind) := inferInstanceAs (Decidable ((_ ∨ _) ∧ _))

section Around

variable {body front behind raw rest : Bytes} {fuel pos first last : Nat}

theorem skipBack_eq (hpos : pos ≤ body.length) (hfuel : pos < fuel) :
    ∃ before, skipBack body fuel pos = some before ∧ before ≤ pos ∧
      (body.take before).reverse = (body.take pos).reverse.dropWhile isJsonSpace := by
  induction fuel generalizing pos with
  | zero => omega
  | succ fuel ih =>
    rw [skipBack]
    cases pos with
    | zero => exact ⟨0, rfl, le_refl _, by simp⟩
    | succ pos =>
      have htake : (body.take (pos + 1)).reverse = body[pos] :: (body.take pos).reverse := by
        rw [take_succ_eq_append_getElem hpos, reverse_append]
        rfl
      have hread : body[pos + 1 - 1]? = some body[pos] := getElem?_eq_getElem hpos
      rw [if_pos (Nat.succ_pos _), hread, htake]
      cases hspace : isJsonSpace body[pos] with
      | true =>
        obtain ⟨before, hskip, hbefore, hrest⟩ := ih (show pos ≤ body.length by omega) (by omega)
        refine ⟨before, ?_, by omega, ?_⟩
        · simp only [bind_eq_bind, bind_some, hspace, if_true]
          exact hskip
        · rw [hrest, dropWhile_cons_of_pos hspace]
      | false =>
        refine ⟨pos + 1, ?_, le_refl _, ?_⟩
        · simp only [bind_eq_bind, bind_some, hspace, Bool.false_eq_true, if_false]
          rfl
        · rw [htake, dropWhile_cons_of_neg (by simp [hspace])]

theorem skipSpaces_eq (hpos : pos ≤ body.length) (hfuel : body.length < pos + fuel) :
    ∃ after, skipSpaces body fuel pos = some after ∧ after ≤ body.length ∧
      body.drop after = (body.drop pos).dropWhile isJsonSpace := by
  induction fuel generalizing pos with
  | zero => omega
  | succ fuel ih =>
    rw [skipSpaces]
    split_ifs with hinside
    · have hdrop : body.drop pos = body[pos] :: body.drop (pos + 1) := drop_eq_getElem_cons hinside
      rw [byteAt_of_drop hdrop, hdrop]
      cases hspace : isJsonSpace body[pos] with
      | true =>
        obtain ⟨after, hskip, hafter, hrest⟩ := ih (show pos + 1 ≤ body.length by omega) (by omega)
        refine ⟨after, ?_, hafter, ?_⟩
        · simp only [bind_eq_bind, bind_some, hspace, if_true]
          exact hskip
        · rw [hrest, dropWhile_cons_of_pos hspace]
      | false =>
        refine ⟨pos, ?_, hpos, ?_⟩
        · simp only [bind_eq_bind, bind_some, hspace, Bool.false_eq_true, if_false]
          rfl
        · rw [hdrop, dropWhile_cons_of_neg (by simp [hspace])]
    · have hend : body.drop pos = [] := drop_eq_nil_of_le (not_lt.mp hinside)
      exact ⟨pos, rfl, hpos, by rw [hend]; rfl⟩

theorem isKeyAt_eq (hfirst : first < body.length) (hlast : last < body.length) :
    isKeyAt body first last = some (decide (IsKey (body.take first) (body.drop (last + 1)))) := by
  obtain ⟨before, hback, hbefore, hfront⟩ :=
    skipBack_eq hfirst.le (Nat.lt_succ_of_lt hfirst : first < body.length + 1)
  obtain ⟨after, hskip, hafter, hbehind⟩ :=
    skipSpaces_eq (Nat.succ_le_of_lt hlast) (by omega : body.length < last + 1 + (body.length + 1))
  have hlastByte : lastByte (body.take first) = if before = 0 then none else body[before - 1]? := by
    rw [lastByte, ← hfront, head?_reverse, getLast?_take]
    split_ifs with hzero
    · rfl
    · rw [getElem?_eq_getElem (by omega)]
      rfl
  have hnextByte : nextByte (body.drop (last + 1)) = body[after]? := by
    rw [nextByte, ← hbehind, head?_drop]
  rw [isKeyAt, hback]
  simp only [bind_eq_bind, bind_some, IsKey, Opens, hlastByte, hnextByte]
  by_cases hzero : before = 0
  · simp [hzero]
  · have hread : body[before - 1]? = some body[before - 1] := getElem?_eq_getElem (by omega)
    rw [if_neg hzero, if_neg hzero, hread]
    by_cases hopens : body[before - 1] = opensObject ∨ body[before - 1] = comma
    · have hsomes : ¬(body[before - 1] ≠ opensObject ∧ body[before - 1] ≠ comma) := by tauto
      simp only [bind_some, if_neg hsomes, hskip, Option.some.injEq, hopens, true_and]
      by_cases hend : body.length ≤ after
      · simp [hend]
      · simp [hend, getElem?_eq_getElem (not_le.mp hend)]
    · have hnone : body[before - 1] ≠ opensObject ∧ body[before - 1] ≠ comma := by tauto
      simp [hnone]

theorem exists_tokenEnd (hfuel : body.length - pos < fuel) :
    ∃ last, tokenEnd body fuel pos = some last ∧ pos ≤ last := by
  induction fuel generalizing pos with
  | zero => omega
  | succ fuel ih =>
    rw [tokenEnd]
    split_ifs with hinside
    · have hread : body[pos]? = some body[pos] := getElem?_eq_getElem hinside
      simp only [hread, bind_eq_bind, bind_some]
      split_ifs with hquote hslash
      · exact ⟨pos, rfl, le_refl _⟩
      · obtain ⟨last, hlast, hlater⟩ := ih (by omega : body.length - (pos + 2) < fuel)
        exact ⟨last, hlast, by omega⟩
      · obtain ⟨last, hlast, hlater⟩ := ih (by omega : body.length - (pos + 1) < fuel)
        exact ⟨last, hlast, by omega⟩
    · exact ⟨pos, rfl, le_refl _⟩

theorem tokenEnd_plain {byte : UInt8} (hdrop : body.drop pos = byte :: rest) (hquote : byte ≠ quote)
    (hslash : byte ≠ backslash) : tokenEnd body (fuel + 1) pos = tokenEnd body fuel (pos + 1) := by
  rw [tokenEnd, if_pos (lt_of_drop hdrop), byteAt_of_drop hdrop]
  simp only [bind_eq_bind, bind_some, if_neg hquote, if_neg hslash]

theorem tokenEnd_backslash (hdrop : body.drop pos = backslash :: rest) :
    tokenEnd body (fuel + 1) pos = tokenEnd body fuel (pos + 2) := by
  rw [tokenEnd, if_pos (lt_of_drop hdrop), byteAt_of_drop hdrop]
  simp only [bind_eq_bind, bind_some, if_neg (show backslash ≠ quote by decide), if_true]

theorem tokenEnd_quote (hdrop : body.drop pos = quote :: rest) : tokenEnd body (fuel + 1) pos = some pos := by
  rw [tokenEnd, if_pos (lt_of_drop hdrop), byteAt_of_drop hdrop]
  rfl

theorem tokenEnd_append {text : Bytes} (hdrop : body.drop pos = text ++ rest)
    (htext : ∀ byte ∈ text, byte ≠ quote ∧ byte ≠ backslash) :
    tokenEnd body (fuel + text.length) pos = tokenEnd body fuel (pos + text.length) := by
  induction text generalizing pos with
  | nil => rfl
  | cons byte text ih =>
    obtain ⟨⟨hquote, hslash⟩, hrest⟩ := forall_mem_cons.mp htext
    rw [length_cons, ← Nat.add_assoc, tokenEnd_plain hdrop hquote hslash,
      ih (drop_succ_of_drop hdrop) hrest]
    congr 1
    omega

theorem tokenEnd_chars (hraw : IsChars raw) (hdrop : body.drop pos = raw ++ quote :: rest)
    (hfuel : raw.length < fuel) : tokenEnd body fuel pos = some (pos + raw.length) := by
  induction hraw generalizing pos fuel with
  | nil =>
    obtain ⟨fuel, rfl⟩ : ∃ less, fuel = less + 1 := ⟨fuel - 1, by omega⟩
    exact tokenEnd_quote hdrop
  | plain byte hplain hrest ih =>
    obtain ⟨fuel, rfl⟩ : ∃ less, fuel = less + 1 := ⟨fuel - 1, by omega⟩
    rw [length_cons] at hfuel ⊢
    rw [tokenEnd_plain hdrop hplain.2.1 hplain.2.2, ih (drop_succ_of_drop hdrop) (by omega)]
    congr 1
    omega
  | escape letter hletter hrest ih =>
    obtain ⟨fuel, rfl⟩ : ∃ less, fuel = less + 1 := ⟨fuel - 1, by omega⟩
    rw [length_cons, length_cons] at hfuel ⊢
    have hbehind := drop_succ_of_drop (drop_succ_of_drop hdrop)
    rw [tokenEnd_backslash hdrop, ih hbehind (by omega)]
    congr 1
    omega
  | unicode digits hlength hdigits hrest ih =>
    rename_i others
    obtain ⟨fuel, rfl⟩ : ∃ less, fuel = less + digits.length + 1 :=
      ⟨fuel - digits.length - 1, by simp only [length_cons, length_append] at hfuel; omega⟩
    simp only [length_cons, length_append] at hfuel ⊢
    have hbehind : body.drop (pos + 2) = digits ++ (others ++ quote :: rest) := by
      have hwhole : body.drop (pos + 2) = digits ++ others ++ quote :: rest :=
        drop_succ_of_drop (drop_succ_of_drop hdrop)
      rwa [append_assoc] at hwhole
    have hplain : ∀ digit ∈ digits, digit ≠ quote ∧ digit ≠ backslash := by
      intro digit hdigit
      have hhex := hdigits digit hdigit
      constructor
      · rintro rfl
        exact absurd hhex (by decide)
      · rintro rfl
        exact absurd hhex (by decide)
    rw [tokenEnd_backslash hdrop, tokenEnd_append hbehind hplain, ih (drop_of_drop hbehind) (by omega)]
    congr 1
    omega

end Around

section Rounds

variable {body front behind raw rest text : Bytes} {known out names : List Bytes} {fuel pos : Nat}

theorem exists_scan (hfuel : body.length - pos < fuel) :
    ∃ keys, scan body known fuel pos out = some keys := by
  induction fuel generalizing pos out with
  | zero => omega
  | succ fuel ih =>
    rw [scan]
    split_ifs with hinside
    · have hread : body[pos]? = some body[pos] := getElem?_eq_getElem hinside
      simp only [hread, bind_eq_bind, bind_some]
      split_ifs with hquote
      · exact ih (by omega : body.length - (pos + 1) < fuel)
      · have hend : ∃ last, tokenEnd body (body.length + 1) (pos + 1) = some last ∧ pos + 1 ≤ last :=
          exists_tokenEnd (by omega)
        obtain ⟨last, hlast, hlater⟩ := hend
        simp only [hlast, bind_some]
        split_ifs with hend
        · exact ⟨out, rfl⟩
        · rw [isKeyAt_eq hinside (not_le.mp hend), bind_some]
          exact ih (by omega : body.length - (last + 1) < fuel)
    · exact ⟨out, rfl⟩

theorem scan_plain {byte : UInt8} (hdrop : body.drop pos = byte :: rest) (hquote : byte ≠ quote) :
    scan body known (fuel + 1) pos out = scan body known fuel (pos + 1) out := by
  rw [scan, if_pos (lt_of_drop hdrop), byteAt_of_drop hdrop]
  simp only [bind_eq_bind, bind_some, if_pos hquote]

theorem scan_string (hraw : IsChars raw) (hbody : body = front ++ quote :: (raw ++ quote :: behind)) :
    scan body known (fuel + 1) front.length out = scan body known fuel (front.length + raw.length + 2)
      (if IsKey front behind then report known out raw else out) := by
  have hdrop : body.drop front.length = quote :: (raw ++ quote :: behind) := by rw [hbody, drop_left]
  have hnext : body.drop (front.length + 1) = raw ++ quote :: behind := drop_succ_of_drop hdrop
  have hclose : body.drop (front.length + 1 + raw.length) = quote :: behind := drop_of_drop hnext
  have hlength : body.length = front.length + (raw.length + (behind.length + 1) + 1) := by
    rw [hbody]
    simp
  have hlast : tokenEnd body (body.length + 1) (front.length + 1) = some (front.length + 1 + raw.length) :=
    tokenEnd_chars hraw hnext (by omega)
  have hraws :
      (body.drop (front.length + 1)).take (front.length + 1 + raw.length - (front.length + 1)) = raw := by
    rw [hnext, Nat.add_sub_cancel_left, take_left]
  have hfront : body.take front.length = front := by rw [hbody, take_left]
  rw [scan, if_pos (lt_of_drop hdrop), byteAt_of_drop hdrop]
  simp only [bind_eq_bind, bind_some, ne_eq, not_true_eq_false, if_false, hlast]
  rw [if_neg (not_le.mpr (lt_of_drop hclose)), isKeyAt_eq (lt_of_drop hdrop) (lt_of_drop hclose), hfront,
    drop_succ_of_drop hclose, hraws, bind_some]
  simp only [decide_eq_true_eq]
  congr 1
  omega

theorem leads_plain (hbody : body = front ++ (text ++ behind)) (htext : quote ∉ text) :
    Leads (scan body known) front.length out (front ++ text).length out := by
  induction text generalizing front with
  | nil =>
    rw [append_nil]
    exact .refl _ _ _
  | cons byte text ih =>
    have hbyte : byte ≠ quote := fun hsame ↦ htext (hsame ▸ mem_cons_self)
    have hdrop : body.drop front.length = byte :: (text ++ behind) := by rw [hbody, drop_left]; rfl
    have hrest : Leads (scan body known) (front ++ [byte]).length out _ out :=
      ih (by rw [hbody]; simp) fun hmem ↦ htext (mem_cons_of_mem _ hmem)
    have hround : Leads (scan body known) front.length out (front ++ [byte]).length out := by
      rw [length_append]
      exact .round (Nat.lt_succ_self _) fun fuel ↦ scan_plain hdrop hbyte
    rw [append_assoc] at hrest
    exact hround.trans hrest

theorem leads_string (hraw : IsChars raw) (hbody : body = front ++ (quote :: (raw ++ [quote]) ++ behind)) :
    Leads (scan body known) front.length out (front ++ quote :: (raw ++ [quote])).length
      (if IsKey front behind then report known out raw else out) := by
  have hwhole : body = front ++ quote :: (raw ++ quote :: behind) := by
    rw [hbody]
    simp
  have hlength : (front ++ quote :: (raw ++ [quote])).length = front.length + raw.length + 2 := by
    simp only [length_append, length_cons, length_nil]
    omega
  rw [hlength]
  exact .round (by omega) fun fuel ↦ scan_string hraw hwhole

theorem leads_append {first second : Bytes} {middle final : List Bytes}
    (hfirst : Leads (scan body known) front.length out (front ++ first).length middle)
    (hsecond : Leads (scan body known) (front ++ first).length middle (front ++ first ++ second).length
      final) : Leads (scan body known) front.length out (front ++ (first ++ second)).length final := by
  rw [← append_assoc]
  exact hfirst.trans hsecond

theorem leads_enclosed {opening closing : UInt8} {final : List Bytes} (hopening : quote ≠ opening)
    (hclosing : quote ≠ closing) (hbody : body = front ++ (opening :: (text ++ [closing]) ++ behind))
    (hinner : Leads (scan body known) (front ++ [opening]).length out (front ++ [opening] ++ text).length
      final) :
    Leads (scan body known) front.length out (front ++ opening :: (text ++ [closing])).length final := by
  have hstart : body = front ++ ([opening] ++ (text ++ closing :: behind)) := by simp [hbody]
  have hend : body = front ++ [opening] ++ text ++ ([closing] ++ behind) := by simp [hbody]
  have hopens : Leads (scan body known) front.length out (front ++ [opening]).length out :=
    leads_plain hstart (by simpa using hopening)
  have hcloses : Leads (scan body known) (front ++ [opening] ++ text).length final
      (front ++ [opening] ++ text ++ [closing]).length final :=
    leads_plain hend (by simpa using hclosing)
  have hrest : Leads (scan body known) (front ++ [opening]).length out _ final := leads_append hinner hcloses
  exact leads_append hopens hrest

end Rounds

/-! ## Documents -/

theorem nextByte_spaces (spaces : Spaces) (text : Bytes) : nextByte (spaces.val ++ text) = nextByte text := by
  have hspaces : ∀ byte ∈ spaces.val, isJsonSpace byte := spaces.property
  rw [nextByte, dropWhile_append_of_pos hspaces, nextByte]

theorem nextByte_cons {byte : UInt8} (hbyte : isJsonSpace byte = false) (text : Bytes) :
    nextByte (byte :: text) = some byte := by
  rw [nextByte, dropWhile_cons_of_neg (by simp [hbyte])]
  rfl

theorem opens_spaces (spaces : Spaces) {front : Bytes} (hfront : Opens front) :
    Opens (front ++ spaces.val) := by
  have hspaces : ∀ byte ∈ spaces.val.reverse, isJsonSpace byte :=
    fun byte hbyte ↦ spaces.property byte (mem_reverse.mp hbyte)
  have hlast : lastByte (front ++ spaces.val) = lastByte front := by
    rw [lastByte, reverse_append, dropWhile_append_of_pos hspaces, lastByte]
  rwa [Opens, hlast]

theorem opens_concat {byte : UInt8} (hbyte : byte = opensObject ∨ byte = comma) (front : Bytes) :
    Opens (front ++ [byte]) := by
  have hlast : lastByte (front ++ [byte]) = some byte := by
    have hspace : isJsonSpace byte = false := by rcases hbyte with rfl | rfl <;> decide
    rw [lastByte, reverse_append, reverse_singleton, singleton_append,
      dropWhile_cons_of_neg (by simp [hspace])]
    rfl
  rcases hbyte with rfl | rfl
  · exact .inl hlast
  · exact .inr hlast

theorem quote_notMem_spaces (spaces : Spaces) : quote ∉ spaces.val :=
  fun hmem ↦ absurd (spaces.property quote hmem) (by decide)

section Documents

variable {body front behind text : Bytes} {known out names : List Bytes} {part : JsonGrammar.Part}

/-- The scan goes over a part of a document and reports its names, unless a colon follows it. A member has to
stand where a name can. -/
theorem leads_written (hwritten : Written part text names) (hbody : body = front ++ (text ++ behind))
    (hbehind : nextByte behind ≠ some colon) (hfront : part = .member ∨ part = .members → Opens front) :
    Leads (scan body known) front.length out (front ++ text).length (names.foldl (report known) out) := by
  induction hwritten generalizing front behind out with
  | word hword =>
    refine leads_plain hbody fun hmem ↦ ?_
    exact absurd (hword.1 quote hmem) (by decide)
  | string hraw =>
    have hnot : ¬IsKey front behind := fun hkey ↦ hbehind hkey.2
    have hstring : Leads (scan body known) front.length out _ (if _ then _ else out) :=
      leads_string hraw hbody
    rwa [if_neg hnot] at hstring
  | emptyArray inner =>
    have hinner : body = front ++ [opensArray] ++ (inner.val ++ closesArray :: behind) := by simp [hbody]
    exact leads_enclosed (by decide) (by decide) hbody (leads_plain hinner (quote_notMem_spaces inner))
  | @array text names hitems ih =>
    have hinner : body = front ++ [opensArray] ++ (text ++ closesArray :: behind) := by simp [hbody]
    have hnext : nextByte (closesArray :: behind) ≠ some colon := by
      rw [nextByte_cons (by decide)]
      decide
    exact leads_enclosed (by decide) (by decide) hbody (ih hinner hnext (by simp))
  | emptyObject inner =>
    have hinner : body = front ++ [opensObject] ++ (inner.val ++ closesObject :: behind) := by simp [hbody]
    exact leads_enclosed (by decide) (by decide) hbody (leads_plain hinner (quote_notMem_spaces inner))
  | @object text names hmembers ih =>
    have hinner : body = front ++ [opensObject] ++ (text ++ closesObject :: behind) := by simp [hbody]
    have hnext : nextByte (closesObject :: behind) ≠ some colon := by
      rw [nextByte_cons (by decide)]
      decide
    have hopens : Opens (front ++ [opensObject]) := opens_concat (.inl rfl) front
    exact leads_enclosed (by decide) (by decide) hbody (ih hinner hnext fun _ ↦ hopens)
  | @item lead trail text names hvalue ih =>
    have hstart : body = front ++ (lead.val ++ (text ++ (trail.val ++ behind))) := by simp [hbody]
    have hinner : body = front ++ lead.val ++ (text ++ (trail.val ++ behind)) := by simp [hbody]
    have hend : body = front ++ lead.val ++ text ++ (trail.val ++ behind) := by simp [hbody]
    have hnext : nextByte (trail.val ++ behind) ≠ some colon := by rwa [nextByte_spaces]
    have hlead : Leads (scan body known) front.length out (front ++ lead.val).length out :=
      leads_plain hstart (quote_notMem_spaces lead)
    have hinside : Leads (scan body known) _ out (front ++ lead.val ++ text).length _ :=
      ih hinner hnext (by simp)
    exact leads_append hlead (leads_append hinside (leads_plain hend (quote_notMem_spaces trail)))
  | lastItem hitem ih => exact ih hbody hbehind (by simp)
  | @moreItems text rest names others hitem hrest ihItem ihRest =>
    have hstart : body = front ++ (text ++ comma :: (rest ++ behind)) := by simp [hbody]
    have hcomma : body = front ++ text ++ ([comma] ++ (rest ++ behind)) := by simp [hbody]
    have hend : body = front ++ text ++ [comma] ++ (rest ++ behind) := by simp [hbody]
    have hnext : nextByte (comma :: (rest ++ behind)) ≠ some colon := by
      rw [nextByte_cons (by decide)]
      decide
    rw [foldl_append]
    exact leads_append (ihItem hstart hnext (by simp))
      (leads_append (leads_plain hcomma (by decide)) (ihRest hend hbehind (by simp)))
  | @member lead beforeColon raw text names hraw hitem ih =>
    have hstart : body = front ++ (lead.val ++ (quote :: (raw ++ quote ::
        (beforeColon.val ++ colon :: text)) ++ behind)) := by simp [hbody]
    have hname : body = front ++ lead.val ++ (quote :: (raw ++ [quote]) ++
        (beforeColon.val ++ colon :: (text ++ behind))) := by simp [hbody]
    have hbetween : body = front ++ lead.val ++ quote :: (raw ++ [quote]) ++
        (beforeColon.val ++ [colon] ++ (text ++ behind)) := by simp [hbody]
    have hend : body = front ++ lead.val ++ quote :: (raw ++ [quote]) ++ (beforeColon.val ++ [colon]) ++
        (text ++ behind) := by simp [hbody]
    have hkey : IsKey (front ++ lead.val) (beforeColon.val ++ colon :: (text ++ behind)) := by
      refine ⟨opens_spaces lead (hfront (.inl rfl)), ?_⟩
      rw [nextByte_spaces, nextByte_cons (by decide)]
    have hcolon : quote ∉ beforeColon.val ++ [colon] := by
      simp only [mem_append, mem_singleton, not_or]
      exact ⟨quote_notMem_spaces beforeColon, by decide⟩
    have hreport : Leads (scan body known) (front ++ lead.val).length out _ (if _ then _ else out) :=
      leads_string hraw hname
    rw [if_pos hkey] at hreport
    have hwhole := leads_append (leads_plain hstart (quote_notMem_spaces lead))
      (leads_append hreport (leads_append (leads_plain hbetween hcolon) (ih hend hbehind (by simp))))
    simpa using hwhole
  | lastMember hmember ih => exact ih hbody hbehind fun _ ↦ hfront (.inr rfl)
  | @moreMembers text rest names others hmember hrest ihMember ihRest =>
    have hstart : body = front ++ (text ++ comma :: (rest ++ behind)) := by simp [hbody]
    have hcomma : body = front ++ text ++ ([comma] ++ (rest ++ behind)) := by simp [hbody]
    have hend : body = front ++ text ++ [comma] ++ (rest ++ behind) := by simp [hbody]
    have hnext : nextByte (comma :: (rest ++ behind)) ≠ some colon := by
      rw [nextByte_cons (by decide)]
      decide
    have hopens : Opens (front ++ text ++ [comma]) := opens_concat (.inr rfl) _
    rw [foldl_append]
    exact leads_append (ihMember hstart hnext fun _ ↦ hfront (.inr rfl))
      (leads_append (leads_plain hcomma (by decide)) (ihRest hend hbehind fun _ ↦ hopens))

theorem foldl_report (known out names : List Bytes) : names.foldl (report known) out =
    out ++ (names.filter fun name ↦ name ∉ known ∧ name ∉ out).eraseDups := by
  induction names generalizing out with
  | nil => simp
  | cons name names ih =>
    rw [foldl_cons, ih, report]
    by_cases hknown : name ∈ known
    · rw [if_pos (contains_iff_mem.mpr hknown), filter_cons_of_neg (by simp [hknown])]
    · rw [if_neg fun hcontains ↦ hknown (contains_iff_mem.mp hcontains)]
      by_cases hseen : name ∈ out
      · rw [if_pos (contains_iff_mem.mpr hseen), filter_cons_of_neg (by simp [hseen])]
      · rw [if_neg fun hcontains ↦ hseen (contains_iff_mem.mp hcontains),
          filter_cons_of_pos (by simp [hknown, hseen]), eraseDups_cons, List.filter_filter,
          append_assoc, singleton_append]
        have hfilter : (names.filter fun other ↦ other ∉ known ∧ other ∉ out ++ [name]) =
            names.filter fun other ↦ !other == name && decide (other ∉ known ∧ other ∉ out) := by
          refine filter_congr fun other _ ↦ ?_
          by_cases hsame : other = name
          · simp [hsame]
          · simp [hsame]
        rw [hfilter]

theorem unknownSettingsKeys_document (hdocument : IsDocument body names) : unknownSettingsKeys body known =
    some (names.filter fun name ↦ name ∉ known).eraseDups := by
  have hbody : body = [] ++ (body ++ []) := by simp
  have hleads : Leads (scan body known) 0 [] body.length (names.foldl (report known) []) :=
    leads_written hdocument hbody (by decide) (by simp)
  have hend (fuel : Nat) (out : List Bytes) : scan body known (fuel + 1) body.length out = some out := by
    rw [scan, if_neg (lt_irrefl _)]
    rfl
  rw [unknownSettingsKeys, hleads.eq_some (Nat.lt_succ_self _) fun fuel ↦ hend fuel _, foldl_report]
  simp

end Documents

/-- **The unknown keys.** The keys that are reported for a document are the names of its members, at any depth
and as they are written, that are not known, each where it comes first; so no text inside a string is. Every
text a reader of JSON takes is such a document. For any bytes the scan ends without a read outside of them. -/
theorem scan_is_exact (known : List Bytes) : (∀ body names, IsDocument body names →
      unknownSettingsKeys body known = some (names.filter fun name ↦ name ∉ known).eraseDups) ∧
    (∀ body document, JsonReading.parse body = some document → ∃ names, IsDocument body names) ∧
    ∀ body, ∃ keys, unknownSettingsKeys body known = some keys :=
  ⟨fun _ _ hdocument ↦ unknownSettingsKeys_document hdocument,
    fun _ _ hparse ↦ JsonGrammar.isDocument_of_parse hparse, fun body ↦ exists_scan (by omega)⟩

end DhcpServer.Web.SettingsImportScan
