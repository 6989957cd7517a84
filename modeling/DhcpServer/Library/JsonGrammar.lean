import DhcpServer.Library.JsonReading

/-!
# The grammar of JSON

RFC 8259 as a relation between a text and the names of the members in it, at any depth, in the order in which
they are written and as they stand between their quotes.
-/

namespace DhcpServer.Library.JsonGrammar

open JsonReading (quote comma colon opensObject closesObject opensArray closesArray hexValue isWordByte
  wordMeaning)
open JsonText (Spaces escapeLetters)
open List Option

inductive IsChars : Bytes → Prop
  | nil : IsChars []
  | plain (byte : UInt8) (hplain : 0x20 ≤ byte ∧ byte ≠ 0x22 ∧ byte ≠ 0x5C) {rest : Bytes}
      (hrest : IsChars rest) : IsChars (byte :: rest)
  | escape (letter : UInt8) (hletter : letter ∈ escapeLetters) {rest : Bytes} (hrest : IsChars rest) :
      IsChars (0x5C :: letter :: rest)
  | unicode (digits : Bytes) (hlength : digits.length = 4)
      (hdigits : ∀ digit ∈ digits, (hexValue digit).isSome = true) {rest : Bytes} (hrest : IsChars rest) :
      IsChars (0x5C :: 0x75 :: (digits ++ rest))

def IsWord (word : Bytes) : Prop :=
  (∀ byte ∈ word, isWordByte byte = true) ∧ (wordMeaning word).isSome = true

inductive Part
  | value
  | item
  | items
  | member
  | members

/-- A part of a document, with the names of the members in it. -/
inductive Written : Part → Bytes → List Bytes → Prop
  | word {text : Bytes} (hword : IsWord text) : Written .value text []
  | string {raw : Bytes} (hraw : IsChars raw) : Written .value (quote :: (raw ++ [quote])) []
  | emptyArray (inner : Spaces) : Written .value (opensArray :: (inner.val ++ [closesArray])) []
  | array {text : Bytes} {names : List Bytes} (hitems : Written .items text names) :
      Written .value (opensArray :: (text ++ [closesArray])) names
  | emptyObject (inner : Spaces) : Written .value (opensObject :: (inner.val ++ [closesObject])) []
  | object {text : Bytes} {names : List Bytes} (hmembers : Written .members text names) :
      Written .value (opensObject :: (text ++ [closesObject])) names
  | item (lead trail : Spaces) {text : Bytes} {names : List Bytes} (hvalue : Written .value text names) :
      Written .item (lead.val ++ (text ++ trail.val)) names
  | lastItem {text : Bytes} {names : List Bytes} (hitem : Written .item text names) :
      Written .items text names
  | moreItems {text rest : Bytes} {names others : List Bytes} (hitem : Written .item text names)
      (hrest : Written .items rest others) : Written .items (text ++ comma :: rest) (names ++ others)
  | member (lead beforeColon : Spaces) {raw text : Bytes} {names : List Bytes} (hraw : IsChars raw)
      (hitem : Written .item text names) :
      Written .member (lead.val ++ quote :: (raw ++ quote :: (beforeColon.val ++ colon :: text)))
        (raw :: names)
  | lastMember {text : Bytes} {names : List Bytes} (hmember : Written .member text names) :
      Written .members text names
  | moreMembers {text rest : Bytes} {names others : List Bytes} (hmember : Written .member text names)
      (hrest : Written .members rest others) : Written .members (text ++ comma :: rest) (names ++ others)

def IsDocument (text : Bytes) (names : List Bytes) : Prop := Written .item text names

open JsonReading (skip parse readUnit readUnicode readEscape readChars readChars_cases readString readWord
  readItems readItems_cases readSequence readMember readValue length_of_readEscape)

section Reading

variable {text rest after tail meant content : Bytes} {byte : UInt8}

theorem exists_spaces (text : Bytes) : ∃ lead : Spaces, text = lead.val ++ skip text :=
  ⟨⟨text.takeWhile JsonText.isSpace, fun _ hbyte ↦ mem_takeWhile_imp hbyte⟩,
    (takeWhile_append_dropWhile).symm⟩

theorem digits_of_readUnit {unit : Nat} (hunit : readUnit text = some (unit, rest)) :
    ∃ digits, text = digits ++ rest ∧ digits.length = 4 ∧
      ∀ digit ∈ digits, (hexValue digit).isSome := by
  match text, hunit with
  | first :: second :: third :: fourth :: tail, hunit =>
    rw [readUnit] at hunit
    split at hunit
    · rename_i high upper lower low hfirst hsecond hthird hfourth
      cases hunit
      exact ⟨[first, second, third, fourth], rfl, rfl, by simp [hfirst, hsecond, hthird, hfourth]⟩
    · cases hunit

theorem chars_of_readEscape (hescape : readEscape text = some (meant, rest)) :
    ∃ used, text = used ++ rest ∧ ∀ raw, IsChars raw → IsChars (0x5C :: (used ++ raw)) := by
  cases text with
  | nil => cases hescape
  | cons letter tail =>
    rw [readEscape] at hescape
    split_ifs at hescape with hletter hknown
    · subst hletter
      rw [readUnicode] at hescape
      cases hunit : readUnit tail with
      | none =>
        rw [hunit] at hescape
        cases hescape
      | some read =>
        obtain ⟨unit, others⟩ := read
        obtain ⟨digits, rfl, hlength, hdigits⟩ := digits_of_readUnit hunit
        simp only [hunit] at hescape
        have hone : ∀ raw, IsChars raw → IsChars (0x5C :: (0x75 :: digits ++ raw)) :=
          fun raw hraw ↦ .unicode digits hlength hdigits hraw
        by_cases hhigh : 0xD800 ≤ unit ∧ unit < 0xDC00
        · rw [if_pos hhigh] at hescape
          rcases others with - | ⟨mark, - | ⟨letter, others⟩⟩
          · cases hescape
          · cases hescape
          · dsimp only at hescape
            split at hescape
            · rename_i hmark
              obtain ⟨rfl, rfl⟩ := hmark
              split at hescape
              · cases hescape
              · rename_i lower following hlower
                obtain ⟨second, rfl, hsecondLength, hsecond⟩ := digits_of_readUnit hlower
                split at hescape
                · obtain ⟨-, hrest⟩ := Prod.mk.inj (Option.some.inj hescape)
                  subst hrest
                  refine ⟨0x75 :: digits ++ 0x5C :: 0x75 :: second, by simp [JsonReading.backslash],
                    fun raw hraw ↦ ?_⟩
                  have htwo := hone _ (.unicode second hsecondLength hsecond hraw)
                  simpa using htwo
                · cases hescape
            · cases hescape
        · rw [if_neg hhigh] at hescape
          by_cases hlow : 0xDC00 ≤ unit ∧ unit < 0xE000
          · rw [if_pos hlow] at hescape
            cases hescape
          · rw [if_neg hlow] at hescape
            obtain ⟨-, hrest⟩ := Prod.mk.inj (Option.some.inj hescape)
            subst hrest
            exact ⟨0x75 :: digits, rfl, hone⟩
    · cases hescape
      exact ⟨[letter], rfl, fun raw hraw ↦ .escape letter hknown hraw⟩

theorem chars_of_readChars (hread : readChars text = some (content, after)) :
    ∃ raw, text = raw ++ quote :: after ∧ IsChars raw := by
  induction hlength : text.length using Nat.strong_induction_on generalizing text content with
  | _ length ih =>
    obtain ⟨rfl, -⟩ | ⟨escaped, meant, rest, content', rfl, hescape, hrest, -⟩ |
      ⟨byte, rest, content', rfl, hquote, hslash, hprinted, hrest, -⟩ := readChars_cases hread
    · exact ⟨[], rfl, .nil⟩
    · have hshorter := length_of_readEscape hescape
      obtain ⟨used, rfl, hused⟩ := chars_of_readEscape hescape
      rw [length_cons] at hlength
      obtain ⟨raw, rfl, hraw⟩ := ih rest.length (by omega) hrest rfl
      exact ⟨0x5C :: (used ++ raw), by simp [JsonReading.backslash], hused raw hraw⟩
    · rw [length_cons] at hlength
      obtain ⟨raw, rfl, hraw⟩ := ih rest.length (by omega) hrest rfl
      exact ⟨byte :: raw, rfl, .plain byte ⟨hprinted, hquote, hslash⟩ hraw⟩

def Ready (part : Part) (text : Bytes) (names : List Bytes) : Prop :=
  ∀ trail : Spaces, Written part (text ++ trail.val) names

section Sequences

variable {α : Type} {item : Bytes → Option (α × Bytes)} {close : UInt8} {fuel : Nat} {items : List α}
  {part parts : Part}

theorem written_of_readItems (hone : ∀ {text names}, Written part text names → Written parts text names)
    (hmore : ∀ {text rest names others}, Written part text names → Written parts rest others →
      Written parts (text ++ comma :: rest) (names ++ others))
    (hitem : ∀ {text found rest}, item text = some (found, rest) →
      ∃ front names, text = front ++ rest ∧ Ready part front names)
    (hread : readItems item close fuel text = some (items, after)) :
    ∃ front names, text = front ++ close :: after ∧ Written parts front names := by
  induction fuel generalizing text items with
  | zero => cases hread
  | succ fuel ih =>
    obtain ⟨first, rest, hfirst, ⟨tail, others, hskip, hothers, -⟩ | ⟨-, hskip, -⟩⟩ := readItems_cases hread
    all_goals
      obtain ⟨front, names, rfl, hready⟩ := hitem hfirst
      obtain ⟨trail, htrail⟩ := exists_spaces rest
      rw [hskip] at htrail
    · obtain ⟨later, more, rfl, hlater⟩ := ih hothers
      exact ⟨front ++ trail.val ++ comma :: later, names ++ more, by rw [htrail]; simp,
        hmore (hready trail) hlater⟩
    · exact ⟨front ++ trail.val, names, by rw [htrail]; simp, hone (hready trail)⟩

theorem written_of_readSequence (hone : ∀ {text names}, Written part text names → Written parts text names)
    (hmore : ∀ {text rest names others}, Written part text names → Written parts rest others →
      Written parts (text ++ comma :: rest) (names ++ others))
    (hitem : ∀ {text found rest}, item text = some (found, rest) →
      ∃ front names, text = front ++ rest ∧ Ready part front names)
    (hread : readSequence item close fuel text = some (items, after)) :
    ∃ front, text = front ++ close :: after ∧
      ((∃ inner : Spaces, front = inner.val) ∨ ∃ names, Written parts front names) := by
  obtain ⟨lead, hlead⟩ := exists_spaces text
  rw [readSequence] at hread
  cases hskip : skip text with
  | nil =>
    rw [hskip] at hread
    cases hread
  | cons byte tail =>
    rw [hskip] at hlead
    simp only [hskip] at hread
    split_ifs at hread with hclose
    · cases hread
      exact ⟨lead.val, by rw [hlead, hclose], .inl ⟨lead, rfl⟩⟩
    · obtain ⟨front, names, htext, hwritten⟩ := written_of_readItems hone hmore hitem hread
      exact ⟨front, htext, .inr ⟨names, hwritten⟩⟩

end Sequences

theorem ready_of_readMember {value : Bytes → Option (JsonReading.Document × Bytes)}
    {member : Bytes × JsonReading.Document}
    (hvalue : ∀ {text found rest}, value text = some (found, rest) →
      ∃ front names, text = front ++ rest ∧ Ready .item front names)
    (hread : readMember value text = some (member, after)) :
    ∃ front names, text = front ++ after ∧ Ready .member front names := by
  obtain ⟨lead, hlead⟩ := exists_spaces text
  rw [readMember] at hread
  cases hskip : skip text with
  | nil =>
    rw [hskip] at hread
    cases hread
  | cons byte opened =>
    rw [hskip] at hlead
    simp only [hskip] at hread
    split_ifs at hread with hquote
    cases hname : readString opened with
    | none =>
      rw [hname] at hread
      cases hread
    | some pair =>
      obtain ⟨key, rest⟩ := pair
      obtain ⟨raw, rfl, hraw⟩ := chars_of_readChars (filter_eq_some_iff.mp hname).1
      obtain ⟨beforeColon, hbefore⟩ := exists_spaces rest
      simp only [hname] at hread
      cases hskipColon : skip rest with
      | nil =>
        rw [hskipColon] at hread
        cases hread
      | cons mark assigned =>
        rw [hskipColon] at hbefore
        simp only [hskipColon] at hread
        split_ifs at hread with hcolon
        obtain ⟨⟨document, after'⟩, hdocument, heq⟩ := map_eq_some_iff.mp hread
        cases heq
        obtain ⟨front, names, rfl, hready⟩ := hvalue hdocument
        refine ⟨lead.val ++ quote :: (raw ++ quote :: (beforeColon.val ++ colon :: front)), raw :: names, ?_,
          fun trail ↦ ?_⟩
        · rw [hlead, hbefore, hquote, hcolon]
          simp
        · have hmember := Written.member lead beforeColon hraw (hready trail)
          simpa using hmember

theorem ready_of_readValue {fuel : Nat} {document : JsonReading.Document}
    (hread : readValue fuel text = some (document, after)) :
    ∃ front names, text = front ++ after ∧ Ready .item front names := by
  induction fuel generalizing text document after with
  | zero => cases hread
  | succ fuel ih =>
    obtain ⟨lead, hlead⟩ := exists_spaces text
    -- a value behind the white space
    have hvalue {value : Bytes} {names : List Bytes} (hskip : skip text = value ++ after)
        (hwritten : Written .value value names) :
        ∃ front names, text = front ++ after ∧ Ready .item front names := by
      refine ⟨lead.val ++ value, names, ?_, fun trail ↦ ?_⟩
      · rw [hlead, hskip, append_assoc]
      · rw [append_assoc]
        exact .item lead trail hwritten
    rw [readValue] at hread
    cases hskip : skip text with
    | nil =>
      rw [hskip] at hread
      cases hread
    | cons byte tail =>
      simp only [hskip] at hread
      split_ifs at hread with hquote hobject harray
      · obtain ⟨⟨content, rest⟩, hstring, heq⟩ := map_eq_some_iff.mp hread
        cases heq
        obtain ⟨raw, rfl, hraw⟩ := chars_of_readChars (filter_eq_some_iff.mp hstring).1
        exact hvalue (by rw [hskip, hquote]; simp) (.string hraw)
      · obtain ⟨⟨members, rest⟩, hmembers, heq⟩ := map_eq_some_iff.mp hread
        cases heq
        obtain ⟨front, rfl, ⟨inner, rfl⟩ | ⟨names, hwritten⟩⟩ :=
          written_of_readSequence .lastMember .moreMembers (fun hmember ↦ ready_of_readMember ih hmember)
            hmembers
        · exact hvalue (by rw [hskip, hobject]; simp) (.emptyObject inner)
        · exact hvalue (by rw [hskip, hobject]; simp) (.object hwritten)
      · obtain ⟨⟨items, rest⟩, hitems, heq⟩ := map_eq_some_iff.mp hread
        cases heq
        obtain ⟨front, rfl, ⟨inner, rfl⟩ | ⟨names, hwritten⟩⟩ :=
          written_of_readSequence .lastItem .moreItems ih hitems
        · exact hvalue (by rw [hskip, harray]; simp) (.emptyArray inner)
        · exact hvalue (by rw [hskip, harray]; simp) (.array hwritten)
      · obtain ⟨meaning, hmeaning, heq⟩ := map_eq_some_iff.mp hread
        cases heq
        have hword : IsWord ((byte :: tail).takeWhile isWordByte) :=
          ⟨fun _ hmem ↦ mem_takeWhile_imp hmem, by rw [hmeaning]; rfl⟩
        exact hvalue (by rw [hskip, takeWhile_append_dropWhile]) (.word hword)

theorem isDocument_of_parse {document : JsonReading.Document} (hparse : parse text = some document) :
    ∃ names, IsDocument text names := by
  rw [parse] at hparse
  split at hparse
  · cases hparse
  · rename_i found rest hread
    split_ifs at hparse with hrest
    obtain ⟨front, names, rfl, hready⟩ := ready_of_readValue hread
    obtain ⟨trail, htrail⟩ := exists_spaces rest
    rw [List.isEmpty_iff.mp hrest, append_nil] at htrail
    exact ⟨names, htrail ▸ hready trail⟩

end Reading

end DhcpServer.Library.JsonGrammar
