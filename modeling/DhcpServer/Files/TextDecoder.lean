import DhcpServer.Files.TextSaves
import DhcpServer.Library.JsonSpelling
import DhcpServer.Library.Reads
import DhcpServer.Web.QuotedNames

/-!
# The decoder of the editor

`jsonDecodeStr` by positions, as the source has it. A read behind the last byte of the body comes to nothing,
and so does a loop that does not end. The decoder of `TextSaves` follows the text that is left instead; both
decode the same.
-/

namespace DhcpServer.Files.TextDecoder

open Library JsonText Web.Json List Option
open Library.Reads (byteAt_of_drop lt_of_drop drop_of_drop drop_succ_of_drop)
open TextSaves (hexDigit hexValue appendUtf8 simpleEscape pairCode decodeText jsonDecodeStr)

/-- What a call returns; the position is the one it has come to. -/
inductive Decoded where
  | refused
  | value (out : Bytes) (pos : Nat)
deriving DecidableEq

/-- Some digits; `some none` where one of them is none. -/
def hexAt (json : Bytes) : (count pos cp : Nat) → Option (Option Nat)
  | 0, _, cp => some (some cp)
  | count + 1, pos, cp => do
    let h ← json[pos]?
    match hexDigit h with
    | none => return none
    | some v => hexAt json count (pos + 1) (cp * 16 + v)

/-- The look-ahead for the second half of a surrogate pair. -/
def pairAt (json : Bytes) (cp pos : Nat) : Option (Option Nat) :=
  if 0xD800 ≤ cp ∧ cp ≤ 0xDBFF ∧ pos + 6 ≤ json.length then do
    let slash ← json[pos]?
    if slash = backslash then do
      let letter ← json[pos + 1]?
      if letter = 0x75 then do
        let lo ← hexAt json 4 (pos + 2) 0
        return lo.bind (pairCode cp)
      else return none
    else return none
  else return none

/-- The loop over the value, with `fuel` for every round of it. -/
def loopAt (json : Bytes) : (fuel pos : Nat) → (out : Bytes) → Option Decoded
  | 0, _, _ => none
  | fuel + 1, pos, out =>
    if pos < json.length then do
      let c ← json[pos]?
      if c = quote then return .value out (pos + 1)
      else if c ≠ backslash then loopAt json fuel (pos + 1) (out ++ [c])
      else if json.length ≤ pos + 1 then return .refused
      else do
        let esc ← json[pos + 1]?
        if esc ≠ 0x75 then
          match simpleEscape esc with
          | none => return .refused
          | some character => loopAt json fuel (pos + 2) (out ++ [character])
        else if json.length < pos + 6 then return .refused
        else do
          match ← hexAt json 4 (pos + 2) 0 with
          | none => return .refused
          | some cp =>
            match ← pairAt json cp (pos + 6) with
            | some both => loopAt json fuel (pos + 12) (out ++ appendUtf8 both)
            | none => loopAt json fuel (pos + 6) (out ++ appendUtf8 cp)
    else return .refused

/-- `string::find` from a position on. -/
def findFrom (pattern json : Bytes) (pos : Nat) : Option Nat :=
  (cutAt pattern (json.drop pos)).map fun cut ↦ pos + cut.1.length

def skipBlanksAt (json : Bytes) : (fuel pos : Nat) → Option Nat
  | 0, _ => none
  | fuel + 1, pos =>
    if pos < json.length then do
      let c ← json[pos]?
      if c = blank ∨ c = 0x09 then skipBlanksAt json fuel (pos + 1) else return pos
    else return pos

def jsonDecodeStrAt (json key : Bytes) : Option Decoded :=
  match findFrom (needle key) json 0 with
  | none => some .refused
  | some pos =>
    match findFrom [colon] json pos with
    | none => some .refused
    | some pos => do
      let pos ← skipBlanksAt json (json.length + 1) (pos + 1)
      if json.length ≤ pos then return .refused
      else do
        let c ← json[pos]?
        if c ≠ quote then return .refused else loopAt json (json.length + 1) (pos + 1) []

/-! ## Rounds of the loop -/

section Rounds

variable {json rest digits out : Bytes} {pos cp fuel count : Nat} {byte letter character : UInt8}

theorem hexAt_eq (hinside : pos + count ≤ json.length) (cp : Nat) :
    hexAt json count pos cp = some (((json.drop pos).take count).foldlM
      (fun value digit ↦ (hexDigit digit).map fun low ↦ value * 16 + low) cp) := by
  induction count generalizing pos cp with
  | zero => rfl
  | succ count ih =>
    obtain ⟨byte, rest, hdrop⟩ := exists_cons_of_length_pos
      (by rw [length_drop]; omega : 0 < (json.drop pos).length)
    rw [hexAt, byteAt_of_drop hdrop, hdrop, take_succ_cons, foldlM_cons, ← drop_succ_of_drop hdrop]
    cases hdigit : hexDigit byte with
    | none => simp [hdigit]
    | some digit =>
      simp only [bind_eq_bind, bind_some, hdigit, map_some]
      exact ih (by omega) _

theorem hexAt_digits (hdrop : json.drop pos = digits ++ rest) (hlength : digits.length = 4) :
    hexAt json 4 pos 0 = some (hexValue digits) := by
  have hinside := congrArg List.length hdrop
  rw [length_drop, length_append] at hinside
  rw [hexAt_eq (by omega), hdrop, ← hlength, take_left, hexValue]

def lookAhead (cp : Nat) (text : Bytes) : Option Nat :=
  let pair := text.take 6
  (if pair.take 2 = [backslash, 0x75] ∧ pair.length = 6 then hexValue (pair.drop 2) else none).bind
    (pairCode cp)

theorem length_of_lookAhead {text : Bytes} {both : Nat} (hpair : lookAhead cp text = some both) :
    6 ≤ text.length := by
  obtain ⟨low, hlow, -⟩ := bind_eq_some_iff.mp hpair
  have hlength : (text.take 6).length = 6 := by
    by_contra hshort
    rw [if_neg (fun hall ↦ hshort hall.2)] at hlow
    cases hlow
  rw [length_take] at hlength
  omega

theorem pairAt_eq (hpos : pos ≤ json.length) : pairAt json cp pos = some (lookAhead cp (json.drop pos)) := by
  by_cases hrange : 0xD800 ≤ cp ∧ cp ≤ 0xDBFF
  · by_cases hlong : pos + 6 ≤ json.length
    · obtain ⟨slash, tail, hdrop⟩ := exists_cons_of_length_pos
        (by rw [length_drop]; omega : 0 < (json.drop pos).length)
      have htail := drop_succ_of_drop hdrop
      obtain ⟨letter, rest, rfl⟩ := exists_cons_of_length_pos
        (by rw [← htail, length_drop]; omega : 0 < tail.length)
      have hrest := drop_succ_of_drop htail
      have hfour : (rest.take 4).length = 4 := by
        rw [length_take, ← hrest, length_drop]
        omega
      have hsplit : json.drop (pos + 2) = rest.take 4 ++ rest.drop 4 := by
        rw [take_append_drop]
        exact hrest
      have hhex : hexAt json 4 (pos + 2) 0 = some (hexValue (rest.take 4)) := hexAt_digits hsplit hfour
      have hpair : (slash :: letter :: rest).take 6 = slash :: letter :: rest.take 4 := rfl
      rw [pairAt, if_pos ⟨hrange.1, hrange.2, hlong⟩, byteAt_of_drop hdrop, byteAt_of_drop htail, hhex, hdrop,
        lookAhead, hpair]
      simp only [bind_eq_bind, bind_some, take_succ_cons, take_zero,
        drop_succ_cons, drop_zero, length_cons, hfour, cons.injEq, and_true]
      by_cases hslash : slash = backslash
      · by_cases hletter : letter = 0x75
        · simp [hslash, hletter]
        · simp [hslash, hletter]
      · simp [hslash]
    · have hshort : ((json.drop pos).take 6).length ≠ 6 := by
        rw [length_take, length_drop]
        omega
      rw [pairAt, if_neg (fun hall ↦ hlong hall.2.2), lookAhead, if_neg (fun hall ↦ hshort hall.2)]
      rfl
  · have hnone (low : Nat) : pairCode cp low = none := if_neg fun hall ↦ hrange ⟨hall.1, hall.2.1⟩
    rw [pairAt, if_neg (fun hall ↦ hrange ⟨hall.1, hall.2.1⟩), lookAhead, funext hnone]
    simp

theorem loopAt_end (hdrop : json.drop pos = []) : loopAt json (fuel + 1) pos out = some .refused := by
  have hpos : ¬pos < json.length := not_lt.mpr (drop_eq_nil_iff.mp hdrop)
  rw [loopAt, if_neg hpos]
  rfl

theorem loopAt_quote (hdrop : json.drop pos = quote :: rest) :
    loopAt json (fuel + 1) pos out = some (.value out (pos + 1)) := by
  rw [loopAt, if_pos (lt_of_drop hdrop), byteAt_of_drop hdrop]
  rfl

theorem loopAt_plain (hdrop : json.drop pos = byte :: rest) (hquote : byte ≠ quote)
    (hbackslash : byte ≠ backslash) :
    loopAt json (fuel + 1) pos out = loopAt json fuel (pos + 1) (out ++ [byte]) := by
  rw [loopAt, if_pos (lt_of_drop hdrop), byteAt_of_drop hdrop]
  simp [hquote, hbackslash]

theorem loopAt_dangling (hdrop : json.drop pos = [backslash]) :
    loopAt json (fuel + 1) pos out = some .refused := by
  have hend : json.length ≤ pos + 1 := drop_eq_nil_iff.mp (drop_succ_of_drop hdrop)
  rw [loopAt, if_pos (lt_of_drop hdrop), byteAt_of_drop hdrop]
  simp [quote, backslash, hend]

theorem loopAt_letter (hdrop : json.drop pos = backslash :: letter :: rest) (hletter : letter ≠ 0x75) :
    loopAt json (fuel + 1) pos out =
      match simpleEscape letter with
      | none => some .refused
      | some character => loopAt json fuel (pos + 2) (out ++ [character]) := by
  have hbehind := drop_succ_of_drop hdrop
  rw [loopAt, if_pos (lt_of_drop hdrop), byteAt_of_drop hdrop]
  simp only [bind_eq_bind, bind_some]
  rw [if_neg (by decide), if_neg (by simp), if_neg (not_le.mpr (lt_of_drop hbehind)), byteAt_of_drop hbehind]
  simp only [bind_some, if_pos hletter]
  rfl

theorem loopAt_short (hdrop : json.drop pos = backslash :: 0x75 :: rest) (hshort : rest.length < 4) :
    loopAt json (fuel + 1) pos out = some .refused := by
  have hbehind := drop_succ_of_drop hdrop
  have hlength : json.length < pos + 6 := by
    have hlength := congrArg List.length hdrop
    simp only [length_drop, length_cons] at hlength
    omega
  rw [loopAt, if_pos (lt_of_drop hdrop), byteAt_of_drop hdrop]
  simp only [bind_eq_bind, bind_some]
  rw [if_neg (by decide), if_neg (by simp), if_neg (not_le.mpr (lt_of_drop hbehind)), byteAt_of_drop hbehind]
  simp [hlength]

theorem loopAt_digits (hdrop : json.drop pos = backslash :: 0x75 :: (digits ++ rest))
    (hlength : digits.length = 4) :
    loopAt json (fuel + 1) pos out =
      match hexValue digits with
      | none => some .refused
      | some cp =>
        match lookAhead cp rest with
        | some both => loopAt json fuel (pos + 12) (out ++ appendUtf8 both)
        | none => loopAt json fuel (pos + 6) (out ++ appendUtf8 cp) := by
  have hbehind := drop_succ_of_drop hdrop
  have hdigits := drop_succ_of_drop hbehind
  have hrest : json.drop (pos + 6) = rest := by
    have hrest := drop_of_drop hdigits
    rwa [hlength] at hrest
  have hinside : pos + 6 ≤ json.length := by
    have hwhole := congrArg List.length hdrop
    simp only [length_drop, length_cons, length_append, hlength] at hwhole
    omega
  rw [loopAt, if_pos (lt_of_drop hdrop), byteAt_of_drop hdrop]
  simp only [bind_eq_bind, bind_some]
  rw [if_neg (by decide), if_neg (by simp), if_neg (not_le.mpr (lt_of_drop hbehind)), byteAt_of_drop hbehind]
  simp only [bind_some, ne_eq, not_true_eq_false, if_false, if_neg (not_lt.mpr hinside)]
  rw [hexAt_digits hdigits hlength]
  simp only [bind_some]
  cases hexValue digits with
  | none => rfl
  | some cp =>
    simp only [pairAt_eq hinside, hrest, bind_some]

end Rounds

/-! ## The text that is left -/

def Decoded.text : Decoded → Option Bytes
  | .refused => none
  | .value out _ => some out

section Text

variable {json : Bytes} {pos fuel : Nat}

theorem decodeText_plain {byte : UInt8} (hquote : byte ≠ quote) (hbackslash : byte ≠ backslash)
    (rounds : Nat) (rest : Bytes) :
    decodeText (rounds + 1) (byte :: rest) = (decodeText rounds rest).map (byte :: ·) :=
  (if_neg hquote).trans (if_pos hbackslash)

theorem decodeText_letter {letter : UInt8} (hletter : letter ≠ 0x75) (rounds : Nat) (rest : Bytes) :
    decodeText (rounds + 1) (backslash :: letter :: rest) =
      (simpleEscape letter).bind fun character ↦ (decodeText rounds rest).map (character :: ·) := by
  rw [decodeText, if_neg (by decide), if_neg (by simp)]
  simp only [if_pos hletter]
  rfl

theorem decodeText_digits {rest : Bytes} (hlong : 4 ≤ rest.length) (rounds : Nat) :
    decodeText (rounds + 1) (backslash :: 0x75 :: rest) =
      (hexValue (rest.take 4)).bind fun cp ↦
        match lookAhead cp (rest.drop 4) with
        | some both => (decodeText rounds (rest.drop 10)).map (appendUtf8 both ++ ·)
        | none => (decodeText rounds (rest.drop 4)).map (appendUtf8 cp ++ ·) := by
  rw [decodeText, if_neg (by decide), if_neg (by simp)]
  simp only [ne_eq, not_true, hlong, if_false, lookAhead]
  rfl

theorem decodeText_short {rest : Bytes} (hshort : rest.length < 4) (rounds : Nat) :
    decodeText (rounds + 1) (backslash :: 0x75 :: rest) = none := by
  rw [decodeText, if_neg (by decide), if_neg (by simp)]
  simp [not_le.mpr hshort]

/-- The loop decodes what `decodeText` decodes, and with a round for every byte it comes to its end. -/
theorem loopAt_eq_decodeText (hpos : pos ≤ json.length) (hfuel : json.length < pos + fuel) {rounds : Nat}
    (hrounds : (json.drop pos).length < rounds) (out : Bytes) :
    ∃ decoded, loopAt json fuel pos out = some decoded ∧
      decoded.text = (decodeText rounds (json.drop pos)).map (out ++ ·) := by
  induction fuel generalizing pos rounds out with
  | zero => omega
  | succ fuel ih =>
    obtain _ | rounds := rounds
    · exact absurd hrounds (Nat.not_lt_zero _)
    have hleft : (json.drop pos).length = json.length - pos := length_drop
    -- a round that goes on to a later position
    have hnext (used : Nat) (meant : Bytes) (hused : 0 < used) (hinside : pos + used ≤ json.length) :
        ∃ decoded, loopAt json fuel (pos + used) (out ++ meant) = some decoded ∧
          decoded.text = ((decodeText rounds (json.drop (pos + used))).map (meant ++ ·)).map (out ++ ·) := by
      have hshorter : (json.drop (pos + used)).length < rounds := by
        rw [length_drop]
        omega
      obtain ⟨decoded, hloop, htext⟩ := ih hinside (by omega) hshorter (out ++ meant)
      refine ⟨decoded, hloop, ?_⟩
      rw [htext, Option.map_map]
      exact congrArg (fun append ↦ Option.map append _) (funext fun more ↦ append_assoc out meant more)
    cases hdrop : json.drop pos with
    | nil => exact ⟨.refused, loopAt_end hdrop, rfl⟩
    | cons byte rest =>
      have hinside := lt_of_drop hdrop
      by_cases hquote : byte = quote
      · subst hquote
        refine ⟨.value out (pos + 1), loopAt_quote hdrop, ?_⟩
        simp [decodeText, Decoded.text]
      by_cases hbackslash : byte = backslash
      · subst hbackslash
        have hbehind := drop_succ_of_drop hdrop
        cases rest with
        | nil => exact ⟨.refused, loopAt_dangling hdrop, rfl⟩
        | cons letter rest =>
          have hrest := drop_succ_of_drop hbehind
          by_cases hletter : letter = 0x75
          · subst hletter
            by_cases hshort : rest.length < 4
            · refine ⟨.refused, loopAt_short hdrop hshort, ?_⟩
              rw [decodeText_short hshort]
              rfl
            · have hlong : 4 ≤ rest.length := not_lt.mp hshort
              have hdigits : json.drop pos = backslash :: 0x75 :: (rest.take 4 ++ rest.drop 4) := by
                rw [take_append_drop, hdrop]
              have hfour : (rest.take 4).length = 4 := by rw [length_take, Nat.min_eq_left hlong]
              rw [loopAt_digits hdigits hfour, decodeText_digits hlong]
              cases hexValue (rest.take 4) with
              | none => exact ⟨.refused, rfl, rfl⟩
              | some cp =>
                have htotal : json.length = pos + 2 + rest.length := by
                  rw [← hrest, length_drop]
                  have := lt_of_drop hbehind
                  omega
                have hskip (count : Nat) : json.drop (pos + (2 + count)) = rest.drop count := by
                  rw [← hrest, drop_drop]
                  congr 1
                  omega
                simp only [bind_some]
                cases hpair : lookAhead cp (rest.drop 4) with
                | none =>
                  obtain ⟨decoded, hloop, htext⟩ := hnext 6 (appendUtf8 cp) (by decide) (by omega)
                  exact ⟨decoded, hloop, htext.trans (by rw [hskip 4])⟩
                | some both =>
                  have hpairLength := length_of_lookAhead hpair
                  rw [length_drop] at hpairLength
                  obtain ⟨decoded, hloop, htext⟩ := hnext 12 (appendUtf8 both) (by decide) (by omega)
                  exact ⟨decoded, hloop, htext.trans (by rw [hskip 10])⟩
          · rw [loopAt_letter hdrop hletter, decodeText_letter hletter]
            cases simpleEscape letter with
            | none => exact ⟨.refused, rfl, rfl⟩
            | some character =>
              obtain ⟨decoded, hloop, htext⟩ := hnext 2 [character] (by decide) (lt_of_drop hbehind)
              exact ⟨decoded, hloop, htext.trans (by rw [← hrest]; rfl)⟩
      · rw [loopAt_plain hdrop hquote hbackslash, decodeText_plain hquote hbackslash]
        obtain ⟨decoded, hloop, htext⟩ := hnext 1 [byte] (by decide) hinside
        exact ⟨decoded, hloop, htext.trans (by rw [drop_succ_of_drop hdrop]; rfl)⟩

theorem findFrom_eq_some {first : UInt8} {others : Bytes} {place : Nat} (hpos : pos ≤ json.length)
    (hfound : findFrom (first :: others) json pos = some place) :
    find (first :: others) (json.drop pos) = some (json.drop place) ∧
      place + others.length < json.length := by
  obtain ⟨⟨before, behind⟩, hcut, rfl⟩ := map_eq_some_iff.mp hfound
  have htext := eq_of_cutAt hcut
  rw [append_assoc] at htext
  refine ⟨?_, ?_⟩
  · rw [find_eq_cutAt, hcut, drop_of_drop htext]
    rfl
  · have hlength := congrArg List.length htext
    simp only [length_drop, length_append, length_cons] at hlength
    dsimp only
    omega

theorem findFrom_eq_none {first : UInt8} {others : Bytes}
    (hnone : findFrom (first :: others) json pos = none) :
    find (first :: others) (json.drop pos) = none := by
  rw [find_eq_cutAt, map_eq_none_iff.mp hnone]
  rfl

theorem skipBlanksAt_eq (hpos : pos ≤ json.length) (hfuel : json.length < pos + fuel) :
    ∃ place, skipBlanksAt json fuel pos = some place ∧ place ≤ json.length ∧
      json.drop place = (json.drop pos).dropWhile fun byte ↦ byte = blank || byte = 0x09 := by
  induction fuel generalizing pos with
  | zero => omega
  | succ fuel ih =>
    cases hdrop : json.drop pos with
    | nil =>
      have hend : ¬pos < json.length := not_lt.mpr (drop_eq_nil_iff.mp hdrop)
      exact ⟨pos, by rw [skipBlanksAt, if_neg hend]; rfl, hpos, hdrop⟩
    | cons byte rest =>
      have hinside := lt_of_drop hdrop
      by_cases hblank : byte = blank ∨ byte = 0x09
      · obtain ⟨place, hskip, hplace, hleft⟩ := ih hinside (by omega)
        refine ⟨place, ?_, hplace, ?_⟩
        · rw [skipBlanksAt, if_pos hinside, byteAt_of_drop hdrop]
          simpa [hblank] using hskip
        · rw [hleft, drop_succ_of_drop hdrop, dropWhile_cons, if_pos (by simpa using hblank)]
      · refine ⟨pos, ?_, hpos, ?_⟩
        · rw [skipBlanksAt, if_pos hinside, byteAt_of_drop hdrop]
          simp [hblank]
        · rw [hdrop, dropWhile_cons, if_neg (by simpa using hblank)]

/-- The text behind the opening quote of the value of a key. -/
def valueText (json key : Bytes) : Option Bytes := do
  let named ← find (needle key) json
  let assigned ← find [colon] named
  match (assigned.drop 1).dropWhile fun byte ↦ byte = blank || byte = 0x09 with
  | [] => none
  | byte :: rest => if byte = quote then some rest else none

theorem jsonDecodeStr_eq (json key : Bytes) :
    jsonDecodeStr json key = (valueText json key).bind fun text ↦ decodeText (text.length + 1) text := by
  rw [jsonDecodeStr, valueText, needle]
  cases find (quote :: key ++ [quote]) json with
  | none => rfl
  | some named =>
    simp only [bind_eq_bind, bind_some]
    cases find [colon] named with
    | none => rfl
    | some assigned =>
      simp only [bind_some]
      generalize (assigned.drop 1).dropWhile _ = left
      cases left with
      | nil => rfl
      | cons byte rest =>
        dsimp only
        split_ifs
        · rfl
        · rfl

theorem jsonDecodeStrAt_valueText (json key : Bytes) : match valueText json key with
    | none => jsonDecodeStrAt json key = some .refused
    | some text => ∃ start, start ≤ json.length ∧ json.drop start = text ∧
        jsonDecodeStrAt json key = loopAt json (json.length + 1) start [] := by
  rw [jsonDecodeStrAt, valueText]
  cases hnamed : findFrom (needle key) json 0 with
  | none =>
    have hnone : find (needle key) (json.drop 0) = none := findFrom_eq_none hnamed
    rw [drop_zero] at hnone
    rw [hnone]
    rfl
  | some place =>
    have hfound : find (needle key) (json.drop 0) = some (json.drop place) ∧ _ :=
      findFrom_eq_some (Nat.zero_le _) hnamed
    obtain ⟨hfind, hplace⟩ := hfound
    rw [drop_zero] at hfind
    rw [hfind]
    simp only [bind_eq_bind, bind_some]
    cases hassigned : findFrom [colon] json place with
    | none =>
      rw [findFrom_eq_none hassigned]
      rfl
    | some place =>
      obtain ⟨hcolon, hbehind⟩ := findFrom_eq_some (by omega) hassigned
      rw [length_nil] at hbehind
      obtain ⟨start, hskip, hstart, hleft⟩ := skipBlanksAt_eq (by omega : place + 1 ≤ json.length)
        (by omega : json.length < place + 1 + (json.length + 1))
      rw [hcolon]
      simp only [bind_some, drop_drop, ← hleft, hskip]
      cases hdrop : json.drop start with
      | nil =>
        have hend := drop_eq_nil_iff.mp hdrop
        simp [hend]
      | cons byte rest =>
        have hinside := lt_of_drop hdrop
        rw [if_neg (not_le.mpr hinside), byteAt_of_drop hdrop]
        by_cases hquote : byte = quote
        · subst hquote
          refine ⟨start + 1, hinside, drop_succ_of_drop hdrop, ?_⟩
          simp
        · simp [hquote]

/-- **Two levels.** The function by positions reads nothing behind the end and comes to its end, and decodes
what `jsonDecodeStr` decodes from the text that is left. -/
theorem jsonDecodeStrAt_eq (json key : Bytes) :
    ∃ decoded, jsonDecodeStrAt json key = some decoded ∧ decoded.text = jsonDecodeStr json key := by
  have hcall := jsonDecodeStrAt_valueText json key
  rw [jsonDecodeStr_eq]
  cases hvalue : valueText json key with
  | none =>
    rw [hvalue] at hcall
    exact ⟨.refused, hcall, rfl⟩
  | some text =>
    rw [hvalue] at hcall
    obtain ⟨start, hstart, rfl, hcall⟩ := hcall
    obtain ⟨decoded, hloop, htext⟩ :=
      loopAt_eq_decodeText hstart (by omega : json.length < start + (json.length + 1)) (Nat.lt_succ_self _) []
    refine ⟨decoded, hcall.trans hloop, ?_⟩
    simpa using htext

end Text

end DhcpServer.Files.TextDecoder
