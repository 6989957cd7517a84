import DhcpServer.Files.TextDecoder

/-!
# What the editor's decoder takes

Every spelling of a text decodes to the UTF-8 of the text. A value is refused exactly if it breaks off, or if
behind some good pieces stands an escape that is none.
-/

namespace DhcpServer.Files.TextDecoder

open Library JsonText Web.Json List Option
open Library.Reads (lt_of_drop drop_of_drop drop_succ_of_drop)
open TextSaves (hexDigit hexValue appendUtf8 simpleEscape pairCode)

theorem mark_or {value : Nat} (places mark : Nat) (hvalue : value < 2 ^ places) :
    2 ^ places * mark ||| value = value + 2 ^ places * mark := by
  rw [← Nat.two_pow_add_eq_or_of_lt hvalue, Nat.add_comm]

theorem appendUtf8_scalar (scalar : Char) : appendUtf8 scalar.val.toNat = String.utf8EncodeChar scalar := by
  have hvalid : scalar.val.toNat < 0xD800 ∨ 0xDFFF < scalar.val.toNat ∧ scalar.val.toNat < 0x110000 :=
    scalar.valid
  have htail (value : Nat) : 0x80 ||| value &&& 0x3F = value % 64 + 128 := by
    have hmod : value &&& 0x3F = value % 64 := Nat.and_two_pow_sub_one_eq_mod value 6
    rw [hmod]
    exact mark_or 6 2 (Nat.mod_lt _ (by decide))
  rw [appendUtf8, String.utf8EncodeChar]
  simp only [Nat.shiftRight_eq_div_pow, htail]
  split_ifs with hone _ htwo hthree
  all_goals try omega
  · rfl
  · have hlead : 0xC0 ||| scalar.val.toNat / 2 ^ 6 = scalar.val.toNat / 64 % 32 + 192 := by
      rw [Nat.mod_eq_of_lt (by omega)]
      exact mark_or 5 6 (by omega)
    rw [hlead]
  · have hlead : 0xE0 ||| scalar.val.toNat / 2 ^ 12 = scalar.val.toNat / 4096 % 16 + 224 := by
      rw [Nat.mod_eq_of_lt (by omega)]
      exact mark_or 4 14 (by omega)
    rw [hlead]
  · have hlead : 0xF0 ||| scalar.val.toNat / 2 ^ 18 = scalar.val.toNat / 262144 % 8 + 240 := by
      rw [Nat.mod_eq_of_lt (by omega)]
      exact mark_or 3 30 (by omega)
    rw [hlead]

theorem hexDigit_eq (byte : UInt8) : hexDigit byte = digitValue 16 byte := by
  have hbytes : ∀ number < 256, hexDigit (UInt8.ofNat number) = digitValue 16 (UInt8.ofNat number) := by
    decide +kernel
  have hbyte := hbytes byte.toNat byte.toNat_lt
  rwa [UInt8.ofNat_toNat] at hbyte

theorem hexValue_of_spells {digits : Bytes} {unit : Nat} (hdigits : SpellsUnit unit digits) :
    hexValue digits = some unit := by
  have hvalue := hdigits.value
  have hsome : digits ≠ [] := by
    rintro rfl
    exact absurd hdigits.length (by decide)
  rw [readNumeral, if_neg hsome] at hvalue
  rw [← hvalue, hexValue]
  refine congrArg (fun step ↦ digits.foldlM step 0) (funext fun total ↦ funext fun byte ↦ ?_)
  rw [hexDigit_eq, readDigit]

/-! ## Spellings -/

/-- The loop goes from one position to another, with no more rounds than there are bytes between them. -/
def Reaches (json : Bytes) (pos : Nat) (out : Bytes) (pos' : Nat) (out' : Bytes) : Prop :=
  ∃ used, pos + used ≤ pos' ∧ ∀ fuel, loopAt json (fuel + used) pos out = loopAt json fuel pos' out'

section Spellings

variable {json out middle text rest bytes : Bytes} {pos next last used : Nat} {scalar : Char}
  {scalars : List Char}

theorem Reaches.refl (json : Bytes) (pos : Nat) (out : Bytes) : Reaches json pos out pos out :=
  ⟨0, le_refl _, fun _ ↦ rfl⟩

theorem Reaches.trans (hfirst : Reaches json pos out next middle) {final : Bytes}
    (hrest : Reaches json next middle last final) : Reaches json pos out last final := by
  obtain ⟨used, hused, hrounds⟩ := hfirst
  obtain ⟨more, hmore, hmoreRounds⟩ := hrest
  refine ⟨more + used, by omega, fun fuel ↦ ?_⟩
  rw [← Nat.add_assoc, hrounds, hmoreRounds]

theorem Reaches.round (hlater : pos < next)
    (hround : ∀ fuel, loopAt json (fuel + 1) pos out = loopAt json fuel next middle) :
    Reaches json pos out next middle :=
  ⟨1, hlater, hround⟩

theorem reaches_plain (hdrop : json.drop pos = bytes ++ rest)
    (hplain : ∀ byte ∈ bytes, byte ≠ quote ∧ byte ≠ backslash) :
    Reaches json pos out (pos + bytes.length) (out ++ bytes) := by
  induction bytes generalizing pos out with
  | nil =>
    rw [append_nil]
    exact .refl _ _ _
  | cons byte bytes ih =>
    obtain ⟨hbyte, hbytes⟩ := forall_mem_cons.mp hplain
    have hround : Reaches json pos out (pos + 1) (out ++ [byte]) :=
      .round (Nat.lt_succ_self _) fun fuel ↦ loopAt_plain hdrop hbyte.1 hbyte.2
    have hrest : Reaches json (pos + 1) (out ++ [byte]) _ _ := ih (drop_succ_of_drop hdrop) hbytes
    rw [append_assoc, singleton_append, Nat.add_assoc, Nat.add_comm 1] at hrest
    exact hround.trans hrest

theorem lookAhead_scalar (scalar : Char) (text : Bytes) : lookAhead scalar.val.toNat text = none := by
  have hvalid : scalar.val.toNat < 0xD800 ∨ 0xDFFF < scalar.val.toNat ∧ scalar.val.toNat < 0x110000 :=
    scalar.valid
  have hnone (low : Nat) : pairCode scalar.val.toNat low = none := if_neg (by omega)
  rw [lookAhead, funext hnone]
  simp

theorem lookAhead_low {cp : Nat} {low : Bytes} (hlength : low.length = 4) (rest : Bytes) :
    lookAhead cp (backslash :: 0x75 :: (low ++ rest)) = (hexValue low).bind (pairCode cp) := by
  have hpair : (backslash :: 0x75 :: (low ++ rest)).take 6 = backslash :: 0x75 :: low := by
    rw [take_succ_cons, take_succ_cons, ← hlength, take_left]
  rw [lookAhead, hpair]
  simp [hlength]

theorem simpleEscape_eq {letter : UInt8} (hletter : letter ∈ escapeLetters) :
    letter ≠ 0x75 ∧ simpleEscape letter = some (Piece.escaped letter) := by
  revert letter
  decide +kernel

theorem reaches_spelling (hspelling : Spelling scalar text) (hdrop : json.drop pos = text ++ rest) :
    Reaches json pos out (pos + text.length) (out ++ String.utf8EncodeChar scalar) := by
  cases hspelling with
  | literal hplain =>
    refine reaches_plain hdrop fun byte hbyte ↦ ?_
    by_cases hascii : scalar.val.toNat < 128
    · have hcode {letter : Char} (hletter : letter.val.toNat < 128) (hne : scalar ≠ letter) :
          byte ≠ UInt8.ofNat letter.val.toNat := by
        rw [utf8EncodeChar_ascii hascii, mem_singleton] at hbyte
        rintro hsame
        rw [hbyte, ← UInt8.toNat_inj, Utf8.toNat_byteOf (by omega), Utf8.toNat_byteOf (by omega)] at hsame
        exact hne (Char.ext (UInt32.toNat_inj.mp hsame))
      exact ⟨hcode (by decide) hplain.1, hcode (by decide) hplain.2⟩
    · have hhigh := high_of_mem_utf8 (not_lt.mp hascii) hbyte
      constructor
      · rintro rfl
        exact absurd hhigh (by decide)
      · rintro rfl
        exact absurd hhigh (by decide)
  | short letter hletter hmeant =>
    obtain ⟨hne, hescape⟩ := simpleEscape_eq hletter
    have hencoded : String.utf8EncodeChar scalar = [Piece.escaped letter] := by
      have hascii : ∀ known ∈ escapeLetters, (Piece.escaped known).toNat < 128 := by decide +kernel
      rw [utf8EncodeChar_ascii (hmeant ▸ hascii letter hletter), hmeant, UInt8.ofNat_toNat]
    rw [hencoded]
    refine .round (by simp) fun fuel ↦ ?_
    rw [loopAt_letter hdrop hne, hescape]
    rfl
  | unit digits hdigits =>
    refine .round (by simp) fun fuel ↦ ?_
    rw [loopAt_digits hdrop hdigits.length, hexValue_of_spells hdigits]
    dsimp only
    rw [lookAhead_scalar, appendUtf8_scalar, length_cons, length_cons, hdigits.length]
  | pair high low habove hhigh hlow =>
    have hvalid : scalar.val.toNat < 0xD800 ∨ 0xDFFF < scalar.val.toNat ∧ scalar.val.toNat < 0x110000 :=
      scalar.valid
    have hcode : pairCode (0xD800 + (scalar.val.toNat - 0x10000) / 0x400)
        (0xDC00 + (scalar.val.toNat - 0x10000) % 0x400) = some scalar.val.toNat := by
      rw [pairCode, if_pos (by omega), Nat.shiftLeft_eq]
      exact congrArg some (by omega)
    have hwhole : json.drop pos = backslash :: 0x75 :: (high ++ backslash :: 0x75 :: (low ++ rest)) := by
      rw [hdrop]
      simp [backslash]
    have hlength : (0x5C :: 0x75 :: (high ++ 0x5C :: 0x75 :: low)).length = 12 := by
      simp [hhigh.length, hlow.length]
    refine .round (by omega) fun fuel ↦ ?_
    rw [loopAt_digits hwhole hhigh.length, hexValue_of_spells hhigh]
    dsimp only
    rw [lookAhead_low hlow.length, hexValue_of_spells hlow, bind_some, hcode]
    dsimp only
    rw [appendUtf8_scalar, hlength]

theorem reaches_spells (hspells : Spells scalars text) (hdrop : json.drop pos = text ++ rest) :
    Reaches json pos out (pos + text.length) (out ++ utf8 scalars) := by
  induction hspells generalizing pos out with
  | nil =>
    rw [utf8, flatMap_nil, append_nil]
    exact .refl _ _ _
  | cons hfirst hrest ih =>
    rw [append_assoc] at hdrop
    refine (reaches_spelling hfirst hdrop).trans ?_
    rw [length_append, ← Nat.add_assoc, utf8, flatMap_cons, ← append_assoc]
    exact ih (drop_of_drop hdrop)

theorem loopAt_of_reaches {decoded : Decoded} (hreaches : Reaches json pos out last middle)
    (hlast : last ≤ json.length) (hend : ∀ fuel, loopAt json (fuel + 1) last middle = some decoded) :
    loopAt json (json.length + 1) pos out = some decoded := by
  obtain ⟨used, hused, hrounds⟩ := hreaches
  have hfuel : json.length + 1 = json.length - used + 1 + used := by omega
  rw [hfuel, hrounds, hend]

end Spellings

/-! ## Refusals -/

/-- A piece of a value as the decoder takes it, with four digits behind `\u`. -/
def IsTaken : Piece → Prop
  | .unicode digits _ => digits.length = 4 ∧ (hexValue digits).isSome = true
  | _ => True

def HasDigits (text : Bytes) : Prop := 4 ≤ text.length ∧ (hexValue (text.take 4)).isSome = true

inductive Broken : Bytes → Prop
  | unterminated : Broken []
  | dangling : Broken [backslash]
  | unknown (letter : UInt8) (rest : Bytes) (hletter : letter ∉ escapeLetters) (hunicode : letter ≠ 0x75) :
      Broken (backslash :: letter :: rest)
  | digits (rest : Bytes) (hdigits : ¬HasDigits rest) : Broken (backslash :: 0x75 :: rest)

section Refusals

variable {json out rest text tail : Bytes} {pos cp both : Nat} {pieces : List Piece}

theorem broken_or_escape (letter : UInt8) (rest : Bytes) : Broken (backslash :: letter :: rest) ∨
      ∃ piece behind, IsTaken piece ∧ backslash :: letter :: rest = piece.written behind ∧
        behind.length < (backslash :: letter :: rest).length := by
  by_cases hunicode : letter = 0x75
  · subst hunicode
    by_cases hdigits : HasDigits rest
    · refine .inr ⟨.unicode (rest.take 4) [], rest.drop 4, ⟨?_, hdigits.2⟩, ?_, ?_⟩
      · rw [length_take, Nat.min_eq_left hdigits.1]
      · rw [Piece.written, take_append_drop]
        rfl
      · simp only [length_drop, length_cons]
        omega
    · exact .inl (.digits rest hdigits)
  · by_cases hletter : letter ∈ escapeLetters
    · refine .inr ⟨.escape letter hletter, rest, trivial, rfl, ?_⟩
      simp only [length_cons]
      omega
    · exact .inl (.unknown letter rest hletter hunicode)

theorem exists_pieces (text : Bytes) :
    ∃ pieces tail, text = piecesWritten pieces tail ∧ (∀ piece ∈ pieces, IsTaken piece) ∧
      ((∃ rest, tail = quote :: rest) ∨ Broken tail) := by
  induction hlength : text.length using Nat.strong_induction_on generalizing text with
  | _ length ih =>
    -- one piece in front of a shorter text
    have hnext (piece : Piece) (behind : Bytes) (htaken : IsTaken piece) (htext : text = piece.written behind)
        (hshorter : behind.length < text.length) :
        ∃ pieces tail, text = piecesWritten pieces tail ∧ (∀ piece ∈ pieces, IsTaken piece) ∧
          ((∃ rest, tail = quote :: rest) ∨ Broken tail) := by
      obtain ⟨pieces, tail, hbehind, hpieces, htail⟩ := ih behind.length (hlength ▸ hshorter) behind rfl
      refine ⟨piece :: pieces, tail, ?_, forall_mem_cons.mpr ⟨htaken, hpieces⟩, htail⟩
      rw [htext, piecesWritten, ← hbehind]
    cases text with
    | nil => exact ⟨[], [], rfl, by simp, .inr .unterminated⟩
    | cons byte rest =>
      by_cases hquote : byte = quote
      · exact ⟨[], byte :: rest, rfl, by simp, .inl ⟨rest, by rw [hquote]⟩⟩
      by_cases hslash : byte = backslash
      · subst hslash
        cases rest with
        | nil => exact ⟨[], [backslash], rfl, by simp, .inr .dangling⟩
        | cons letter rest =>
          rcases broken_or_escape letter rest with hbroken | ⟨piece, behind, htaken, htext, hshorter⟩
          · exact ⟨[], _, rfl, by simp, .inr hbroken⟩
          · exact hnext piece behind htaken htext hshorter
      · exact hnext (.plain byte ⟨hquote, hslash⟩) rest trivial rfl (Nat.lt_succ_self _)

theorem exists_of_lookAhead (hpair : lookAhead cp text = some both) :
    ∃ low behind, text = backslash :: 0x75 :: (low ++ behind) ∧ low.length = 4 ∧
      (hexValue low).isSome := by
  have hlong := length_of_lookAhead hpair
  obtain ⟨low, hlow, -⟩ := bind_eq_some_iff.mp hpair
  obtain ⟨slash, tail, rfl⟩ := exists_cons_of_length_pos (Nat.lt_of_lt_of_le (by decide) hlong)
  rw [length_cons] at hlong
  obtain ⟨letter, rest, rfl⟩ := exists_cons_of_length_pos (by omega : 0 < tail.length)
  rw [length_cons] at hlong
  split_ifs at hlow with hstart
  obtain ⟨hmarks, -⟩ := hstart
  obtain ⟨rfl, hletter⟩ := cons.inj hmarks
  obtain ⟨rfl, -⟩ := cons.inj hletter
  refine ⟨rest.take 4, rest.drop 4, by rw [take_append_drop], ?_, ?_⟩
  · rw [length_take]
    omega
  · exact isSome_iff_exists.mpr ⟨low, hlow⟩

theorem lookAhead_tail (htail : (∃ rest, tail = quote :: rest) ∨ Broken tail) (cp : Nat) :
    lookAhead cp tail = none := by
  by_contra hsome
  obtain ⟨both, hpair⟩ := ne_none_iff_exists'.mp hsome
  obtain ⟨low, behind, rfl, hlength, hlow⟩ := exists_of_lookAhead hpair
  rcases htail with ⟨rest, hquote⟩ | hbroken
  · exact absurd (cons.inj hquote).1 (by decide)
  · cases hbroken with
    | unknown letter rest hletter hunicode => exact hunicode rfl
    | digits rest hdigits =>
      refine hdigits ⟨?_, ?_⟩
      · rw [length_append]
        omega
      · rwa [← hlength, take_left]

theorem reaches_pieces (hpieces : ∀ piece ∈ pieces, IsTaken piece)
    (htail : (∃ rest, tail = quote :: rest) ∨ Broken tail) (hpos : pos ≤ json.length)
    (hdrop : json.drop pos = piecesWritten pieces tail) :
    ∃ last final, Reaches json pos out last final ∧ last ≤ json.length ∧ json.drop last = tail := by
  induction hcount : pieces.length using Nat.strong_induction_on generalizing pieces pos out with
  | _ count ih =>
    cases pieces with
    | nil => exact ⟨pos, out, .refl _ _ _, hpos, hdrop⟩
    | cons piece pieces =>
      obtain ⟨hpiece, hrest⟩ := forall_mem_cons.mp hpieces
      rw [length_cons] at hcount
      -- a round over the first piece, and the rest
      have hnext (next : Nat) (middle : Bytes) (hlater : pos < next)
          (hround : ∀ fuel, loopAt json (fuel + 1) pos out = loopAt json fuel next middle)
          (others : List Piece) (hothers : ∀ piece ∈ others, IsTaken piece) (hfewer : others.length < count)
          (hinside : next ≤ json.length) (hbehind : json.drop next = piecesWritten others tail) :
          ∃ last final, Reaches json pos out last final ∧ last ≤ json.length ∧ json.drop last = tail := by
        have hmore : ∃ last final, Reaches json next middle last final ∧ last ≤ json.length ∧ _ :=
          ih others.length hfewer hothers hinside hbehind rfl
        obtain ⟨last, final, hreaches, hlast⟩ := hmore
        exact ⟨last, final, (Reaches.round hlater hround).trans hreaches, hlast⟩
      cases piece with
      | plain byte unquoted =>
        exact hnext (pos + 1) (out ++ [byte]) (Nat.lt_succ_self _)
          (fun fuel ↦ loopAt_plain hdrop unquoted.1 unquoted.2) pieces hrest (by omega) (lt_of_drop hdrop)
          (drop_succ_of_drop hdrop)
      | escape letter known =>
        obtain ⟨hne, hescape⟩ := simpleEscape_eq known
        refine hnext (pos + 2) (out ++ [Piece.escaped letter]) (by omega) (fun fuel ↦ ?_) pieces hrest
          (by omega) (lt_of_drop (drop_succ_of_drop hdrop)) (drop_succ_of_drop (drop_succ_of_drop hdrop))
        rw [loopAt_letter hdrop hne, hescape]
      | unicode digits meant =>
        obtain ⟨hlength, hsome⟩ := hpiece
        obtain ⟨cp, hcp⟩ := isSome_iff_exists.mp hsome
        have hdigits : json.drop pos = backslash :: 0x75 :: (digits ++ piecesWritten pieces tail) := hdrop
        have hbehind : json.drop (pos + 6) = piecesWritten pieces tail := by
          have hbehind := drop_of_drop (drop_succ_of_drop (drop_succ_of_drop hdigits))
          rwa [hlength] at hbehind
        have hinside : pos + 6 + (piecesWritten pieces tail).length = json.length := by
          have hwhole := congrArg List.length hdigits
          simp only [length_drop, length_cons, length_append, hlength] at hwhole
          omega
        cases hpair : lookAhead cp (piecesWritten pieces tail) with
        | none =>
          refine hnext (pos + 6) (out ++ appendUtf8 cp) (by omega) (fun fuel ↦ ?_) pieces hrest (by omega)
            (by omega) hbehind
          rw [loopAt_digits hdigits hlength, hcp]
          dsimp only
          rw [hpair]
        | some both =>
          -- the second half is the next piece
          obtain ⟨low, behind, hlow, hlowLength, -⟩ := exists_of_lookAhead hpair
          cases pieces with
          | nil =>
            rw [piecesWritten] at hpair
            rw [lookAhead_tail htail] at hpair
            cases hpair
          | cons second pieces =>
            obtain ⟨hsecond, hothers⟩ := forall_mem_cons.mp hrest
            cases second with
            | plain byte unquoted => exact absurd (cons.inj hlow).1 unquoted.2
            | escape letter known =>
              exact absurd (cons.inj (cons.inj hlow).2).1 (simpleEscape_eq known).1
            | unicode others meant =>
              have hlater : json.drop (pos + 12) = piecesWritten pieces tail := by
                have hsecondText : json.drop (pos + 6) =
                    backslash :: 0x75 :: (others ++ piecesWritten pieces tail) := hbehind
                have hlater := drop_of_drop (drop_succ_of_drop (drop_succ_of_drop hsecondText))
                rwa [hsecond.1] at hlater
              have hlonger := length_of_lookAhead hpair
              rw [length_cons] at hcount
              refine hnext (pos + 12) (out ++ appendUtf8 both) (by omega) (fun fuel ↦ ?_) pieces hothers
                (by omega) (by omega) hlater
              rw [loopAt_digits hdigits hlength, hcp]
              dsimp only
              rw [hpair]

theorem loopAt_broken (hbroken : Broken tail) (hdrop : json.drop pos = tail) (fuel : Nat) :
    loopAt json (fuel + 1) pos out = some .refused := by
  cases hbroken with
  | unterminated => exact loopAt_end hdrop
  | dangling => exact loopAt_dangling hdrop
  | unknown letter rest hletter hunicode =>
    have hnone : simpleEscape letter = none := by
      have hbytes : ∀ number < 256, UInt8.ofNat number ∉ escapeLetters →
          simpleEscape (UInt8.ofNat number) = none := by decide +kernel
      have hbyte := hbytes letter.toNat letter.toNat_lt
      rw [UInt8.ofNat_toNat] at hbyte
      exact hbyte hletter
    rw [loopAt_letter hdrop hunicode, hnone]
  | digits rest hdigits =>
    by_cases hshort : rest.length < 4
    · exact loopAt_short hdrop hshort
    · have hlong : 4 ≤ rest.length := not_lt.mp hshort
      have hsplit : json.drop pos = backslash :: 0x75 :: (rest.take 4 ++ rest.drop 4) := by
        rw [take_append_drop, hdrop]
      have hnone : hexValue (rest.take 4) = none :=
        not_isSome_iff_eq_none.mp fun hsome ↦ hdigits ⟨hlong, hsome⟩
      rw [loopAt_digits hsplit (by rw [length_take, Nat.min_eq_left hlong]), hnone]

end Refusals

/-- Where a value stands: its key occurs no earlier and has no colon, and blanks or tabs stand behind the
colon. -/
structure Place where
  before : Bytes
  key : Bytes
  gap : Spaces
  blanks : Bytes
  after : Bytes
  first : ∀ front back, before ++ needle key = front ++ needle key ++ back → before.length ≤ front.length
  single : colon ∉ key
  separated : ∀ byte ∈ blanks, byte = blank ∨ byte = 0x09

def Place.body (place : Place) (text : Bytes) : Bytes :=
  place.before ++ needle place.key ++
    (place.gap.val ++ colon :: (place.blanks ++ quote :: (text ++ quote :: place.after)))

theorem Place.valueText_body (place : Place) (text : Bytes) :
    valueText (place.body text) place.key = some (text ++ quote :: place.after) := by
  have hcut : cutAt (needle place.key) (place.before ++ needle place.key) = some (place.before, []) :=
    cutAt_eq_some_iff.mpr ⟨(append_nil _).symm, place.first⟩
  have hnamed : find (needle place.key) (place.body text) = some (needle place.key ++ (place.gap.val ++
      colon :: (place.blanks ++ quote :: (text ++ quote :: place.after)))) := by
    have hwhole := cutAt_append hcut
      (place.gap.val ++ colon :: (place.blanks ++ quote :: (text ++ quote :: place.after)))
    rw [nil_append] at hwhole
    have hfind : find (needle place.key) (place.body text) = _ := find_eq_cutAt quote (place.key ++ [quote]) _
    rw [hfind]
    change (cutAt (needle place.key) (place.body text)).map _ = _
    rw [Place.body, hwhole]
    rfl
  have hcolon : colon ∉ needle place.key ++ place.gap.val := by
    have hgap : colon ∉ place.gap.val := fun hmem ↦ absurd (place.gap.property _ hmem) (by decide)
    simp only [needle, cons_append, mem_cons, mem_append, not_mem_nil, or_false, not_or]
    exact ⟨by decide, ⟨place.single, by decide⟩, hgap⟩
  have hassigned : find [colon] (needle place.key ++ (place.gap.val ++
      colon :: (place.blanks ++ quote :: (text ++ quote :: place.after)))) =
      some (colon :: (place.blanks ++ quote :: (text ++ quote :: place.after))) := by
    rw [← append_assoc, find_append_of_notMem hcolon]
    exact find_self rfl _
  have hblanks : (place.blanks ++ quote :: (text ++ quote :: place.after)).dropWhile
      (fun byte ↦ byte = blank || byte = 0x09) = quote :: (text ++ quote :: place.after) := by
    rw [dropWhile_append_of_pos fun byte hbyte ↦ by simpa using place.separated byte hbyte]
    rfl
  rw [valueText, hnamed]
  simp only [bind_eq_bind, bind_some, hassigned, drop_succ_cons, drop_zero, hblanks, if_true]

theorem Place.decode_spelled (place : Place) {scalars : List Char} {text : Bytes}
    (hspells : Spells scalars text) :
    jsonDecodeStrAt (place.body text) place.key =
      some (.value (utf8 scalars) ((place.body text).length - place.after.length)) := by
  have hcall := jsonDecodeStrAt_valueText (place.body text) place.key
  rw [place.valueText_body] at hcall
  obtain ⟨start, hstart, hdrop, hcall⟩ := hcall
  have hreaches : Reaches (place.body text) start [] (start + text.length) ([] ++ utf8 scalars) :=
    reaches_spells hspells hdrop
  have hend := drop_of_drop hdrop
  have hinside := lt_of_drop hend
  have hlast := congrArg List.length hend
  rw [length_drop, length_cons] at hlast
  rw [hcall, loopAt_of_reaches hreaches hinside.le fun fuel ↦ loopAt_quote hend, nil_append]
  congr 2
  omega

theorem refused_iff (json key : Bytes) : jsonDecodeStrAt json key = some .refused ↔
      ∀ text, valueText json key = some text → ∃ pieces tail, text = piecesWritten pieces tail ∧
        (∀ piece ∈ pieces, IsTaken piece) ∧ Broken tail := by
  have hcall := jsonDecodeStrAt_valueText json key
  cases hvalue : valueText json key with
  | none =>
    rw [hvalue] at hcall
    simp [hcall]
  | some text =>
    rw [hvalue] at hcall
    obtain ⟨start, hstart, hdrop, hcall⟩ := hcall
    rw [hcall]
    constructor
    · rintro hrefused _ htext
      cases htext
      obtain ⟨pieces, tail, htext, hpieces, htail⟩ := exists_pieces text
      refine ⟨pieces, tail, htext, hpieces, htail.resolve_left ?_⟩
      rintro ⟨rest, rfl⟩
      obtain ⟨last, final, hreaches, -, hlast⟩ :=
        reaches_pieces hpieces (.inl ⟨rest, rfl⟩) hstart (hdrop.trans htext)
      rw [loopAt_of_reaches hreaches (lt_of_drop hlast).le fun fuel ↦ loopAt_quote hlast] at hrefused
      cases hrefused
    · intro hbroken
      obtain ⟨pieces, tail, htext, hpieces, htail⟩ := hbroken text rfl
      obtain ⟨last, final, hreaches, hinside, hlast⟩ :=
        reaches_pieces hpieces (.inr htail) hstart (hdrop.trans htext)
      exact loopAt_of_reaches hreaches hinside fun fuel ↦ loopAt_broken htail hlast fuel

/-- **The decoder.** Every spelling of a text decodes to its UTF-8 and is left behind the closing quote,
whatever stands there. Every call ends without a read behind the end, and refuses exactly the values that
break off, that have an unknown escape, or a `\u` without four digits. -/
theorem decodes_spellings : (∀ (place : Place) (scalars : List Char) (text : Bytes), Spells scalars text →
      jsonDecodeStrAt (place.body text) place.key =
        some (.value (utf8 scalars) ((place.body text).length - place.after.length))) ∧
    ∀ json key : Bytes,
      (∃ decoded, jsonDecodeStrAt json key = some decoded) ∧ (jsonDecodeStrAt json key = some .refused ↔
          ∀ text, valueText json key = some text → ∃ pieces tail, text = piecesWritten pieces tail ∧
            (∀ piece ∈ pieces, IsTaken piece) ∧ Broken tail) := by
  refine ⟨fun place scalars text hspells ↦ place.decode_spelled hspells,
    fun json key ↦ ⟨?_, refused_iff json key⟩⟩
  obtain ⟨decoded, hcall, -⟩ := jsonDecodeStrAt_eq json key
  exact ⟨decoded, hcall⟩

/-- The colon of this key is taken for the one behind it. -/
theorem key_with_colon_refused : Spells ['x'] (ascii "x") ∧
      jsonDecodeStrAt (ascii "\x7b\"a:b\":\"x\"\x7d") (ascii "a:b") = some .refused := by
  refine ⟨?_, by decide +kernel⟩
  have hspells : Spells ['x'] (String.utf8EncodeChar 'x' ++ []) := .cons (.literal (by decide)) .nil
  exact hspells

end DhcpServer.Files.TextDecoder
