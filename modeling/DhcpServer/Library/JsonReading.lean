import DhcpServer.Library.JsonStrings

/-!
# Reading JSON

A reader of JSON texts. It takes what the grammar allows and nothing else. A number is kept as it is
written, and an object keeps its members in their order.

`ReadsAs` says of a text that is put together piece by piece when it is read as a document: exactly if
a condition holds, whatever follows it.
-/

namespace DhcpServer.Library.JsonReading

open JsonText (isSpace)
open List Option

inductive Document
  | null
  | flag (on : Bool)
  | number (literal : Bytes)
  | text (content : Bytes)
  | array (items : List Document)
  | object (members : List (Bytes × Document))

/-! ## Words -/

def isDigit (byte : UInt8) : Bool := 0x30 ≤ byte && byte ≤ 0x39

/-- What a number or one of the three words is written with. -/
def isWordByte (byte : UInt8) : Bool :=
  isDigit byte || (0x61 ≤ byte && byte ≤ 0x7A) || (0x41 ≤ byte && byte ≤ 0x5A) || byte = 0x2B ||
    byte = 0x2D || byte = 0x2E

def isDigits (text : Bytes) : Bool := !text.isEmpty && text.all isDigit

def isExponent : Bytes → Bool
  | [] => true
  | mark :: rest => (mark = 0x65 || mark = 0x45) &&
    match rest with
    | [] => false
    | sign :: digits => if sign = 0x2B ∨ sign = 0x2D then isDigits digits else isDigits rest

def isFraction : Bytes → Bool
  | [] => true
  | point :: rest =>
    if point = 0x2E then
      !(rest.takeWhile isDigit).isEmpty && isExponent (rest.dropWhile isDigit)
    else isExponent (point :: rest)

/-- A number begins with a zero only if it is the whole part. -/
def isUnsigned : Bytes → Bool
  | [] => false
  | leading :: rest =>
    isDigit leading && if leading = 0x30 then isFraction rest else isFraction (rest.dropWhile isDigit)

def isNumber : Bytes → Bool
  | [] => false
  | sign :: rest => if sign = 0x2D then isUnsigned rest else isUnsigned (sign :: rest)

def wordMeaning (word : Bytes) : Option Document :=
  if word = ascii "null" then some .null
  else if word = ascii "true" then some (.flag true)
  else if word = ascii "false" then some (.flag false)
  else if isNumber word then some (.number word)
  else none

def readWord (text : Bytes) : Option (Document × Bytes) :=
  (wordMeaning (text.takeWhile isWordByte)).map fun document ↦ (document, text.dropWhile isWordByte)

def Delimited (rest : Bytes) : Prop := ∀ byte ∈ rest.head?, isWordByte byte = false

theorem readWord_append {word rest : Bytes} (hword : ∀ byte ∈ word, isWordByte byte)
    (hrest : Delimited rest) :
    readWord (word ++ rest) = (wordMeaning word).map fun document ↦ (document, rest) := by
  have htake : rest.takeWhile isWordByte = [] := by
    cases rest with
    | nil => rfl
    | cons byte rest => simp [hrest byte rfl]
  have hdrop : rest.dropWhile isWordByte = rest := by
    cases rest with
    | nil => rfl
    | cons byte rest => simp [hrest byte rfl]
  rw [readWord, takeWhile_append_of_pos hword, dropWhile_append_of_pos hword, htake, hdrop, append_nil]

theorem readWord_more {text rest : Bytes} {document : Document}
    (hread : readWord text = some (document, rest)) (hrest : rest ≠ []) (more : Bytes) :
    readWord (text ++ more) = some (document, rest ++ more) := by
  obtain ⟨meaning, hmeaning, heq⟩ := map_eq_some_iff.mp hread
  cases heq
  have hwords : ∀ byte ∈ text.takeWhile isWordByte, isWordByte byte :=
    fun byte hbyte ↦ mem_takeWhile_imp hbyte
  have hdelimited : Delimited (text.dropWhile isWordByte ++ more) := by
    cases hdrop : text.dropWhile isWordByte with
    | nil => exact absurd hdrop hrest
    | cons byte tail =>
      intro other hother
      cases hother
      have hhead := head_dropWhile_not isWordByte hrest
      simpa [hdrop] using hhead
  rw [← takeWhile_append_dropWhile (p := isWordByte) (l := text), append_assoc,
    readWord_append hwords hdelimited, hmeaning]
  simp

/-! ## Sequences -/

def comma : UInt8 := 0x2C

def skip (text : Bytes) : Bytes := text.dropWhile isSpace

section Sequences

variable {α : Type} (item : Bytes → Option (α × Bytes)) (close : UInt8)

/-- One item, and those behind a comma each up to the closing byte. -/
def readItems : Nat → Bytes → Option (List α × Bytes)
  | 0, _ => none
  | fuel + 1, text =>
    match item text with
    | none => none
    | some (first, rest) =>
      match skip rest with
      | [] => none
      | byte :: rest =>
        if byte = comma then (readItems fuel rest).map fun (items, after) ↦ (first :: items, after)
        else if byte = close then some ([first], rest)
        else none

def readSequence (fuel : Nat) (text : Bytes) : Option (List α × Bytes) :=
  match skip text with
  | [] => none
  | byte :: rest => if byte = close then some ([], rest) else readItems item close fuel text

end Sequences

theorem skip_cons (byte : UInt8) (hbyte : isSpace byte = false) (rest : Bytes) :
    skip (byte :: rest) = byte :: rest := by
  simp [skip, hbyte]

theorem skip_append {text tail : Bytes} {byte : UInt8} (hskip : skip text = byte :: tail) (more : Bytes) :
    skip (text ++ more) = byte :: (tail ++ more) := by
  rw [skip, dropWhile_append]
  rw [skip] at hskip
  simp [hskip]

section Items

variable {α : Type} {item : Bytes → Option (α × Bytes)} {close : UInt8}

theorem readItems_cases {fuel : Nat} {text after : Bytes} {items : List α}
    (hread : readItems item close (fuel + 1) text = some (items, after)) :
    ∃ first rest, item text = some (first, rest) ∧ ((∃ tail others, skip rest = comma :: tail ∧
          readItems item close fuel tail = some (others, after) ∧ items = first :: others) ∨
        (close ≠ comma ∧ skip rest = close :: after ∧ items = [first])) := by
  rw [readItems] at hread
  split at hread
  · cases hread
  · rename_i first rest hitem
    refine ⟨first, rest, hitem, ?_⟩
    split at hread
    · cases hread
    · rename_i byte tail hskip
      split_ifs at hread with hcomma hclose
      · obtain ⟨⟨others, after'⟩, hothers, heq⟩ := map_eq_some_iff.mp hread
        cases heq
        exact .inl ⟨tail, others, by rw [hskip, hcomma], hothers, rfl⟩
      · cases hread
        exact .inr ⟨hclose ▸ hcomma, by rw [hskip, hclose], rfl⟩

theorem readItems_more_items {fuel : Nat} {text rest tail after : Bytes} {first : α} {others : List α}
    (hitem : item text = some (first, rest)) (hskip : skip rest = comma :: tail)
    (hothers : readItems item close fuel tail = some (others, after)) :
    readItems item close (fuel + 1) text = some (first :: others, after) := by
  simp only [readItems, hitem, hskip, if_pos, hothers, map_some]

theorem readItems_last_item {text rest after : Bytes} {first : α} (hclose : close ≠ comma)
    (hitem : item text = some (first, rest)) (hskip : skip rest = close :: after) (fuel : Nat) :
    readItems item close (fuel + 1) text = some ([first], after) := by
  simp only [readItems, hitem, hskip, if_neg hclose, if_pos]

/-- A reader gives an item for a text exactly if a condition holds, whatever follows the text. -/
def Exact (read : Bytes → Option (α × Bytes)) (text : Bytes) (found : α) (condition : Prop) : Prop :=
  ∀ rest, Delimited rest → ∀ after, read (text ++ rest) = some (found, after) ↔ condition ∧ after = rest

structure Closing (close : UInt8) : Prop where
  notComma : close ≠ comma
  notSpace : isSpace close = false
  notWord : isWordByte close = false

theorem Closing.delimited (hclose : Closing close) (rest : Bytes) : Delimited (close :: rest) := by
  intro byte hbyte
  cases hbyte
  exact hclose.notWord

theorem delimited_comma (rest : Bytes) : Delimited (comma :: rest) := by
  intro byte hbyte
  cases hbyte
  decide

section Entries

variable {ε : Type} {entries : List ε} {written : ε → Bytes} {found : ε → α} {condition : ε → Prop}

def joined (written : ε → Bytes) (entries : List ε) : Bytes := [comma].intercalate (entries.map written)

theorem joined_cons (entry next : ε) (entries : List ε) : joined written (entry :: next :: entries) =
      written entry ++ comma :: joined written (next :: entries) := by
  rw [joined, map_cons, intercalate_cons_of_ne_nil (by simp), append_assoc]
  rfl

theorem joined_singleton (entry : ε) : joined written [entry] = written entry := by
  simp [joined]

theorem readItems_iff (hclose : Closing close)
    (hexact : ∀ entry ∈ entries, Exact item (written entry) (found entry) (condition entry))
    (hfilled : entries ≠ []) {fuel : Nat} (hfuel : entries.length ≤ fuel) {rest after : Bytes} :
    readItems item close fuel (joined written entries ++ close :: rest) =
        some (entries.map found, after) ↔
      (∀ entry ∈ entries, condition entry) ∧ after = rest := by
  induction entries generalizing fuel with
  | nil => exact absurd rfl hfilled
  | cons entry entries ih =>
    obtain ⟨hentry, hrest⟩ := forall_mem_cons.mp hexact
    obtain ⟨fuel, rfl⟩ : ∃ less, fuel = less + 1 := ⟨fuel - 1, by simp at hfuel; omega⟩
    cases entries with
    | nil =>
      have hitem := hentry (close :: rest) (hclose.delimited rest)
      have hskip := skip_cons close hclose.notSpace rest
      rw [joined_singleton]
      constructor
      · intro hread
        obtain ⟨first, tail, hfirst, ⟨_, others, hcomma, -, hitems⟩ | ⟨-, hend, hitems⟩⟩ :=
          readItems_cases hread
        · obtain ⟨rfl, -⟩ := cons.inj hitems
          obtain ⟨-, rfl⟩ := (hitem tail).mp hfirst
          rw [hskip] at hcomma
          exact absurd (cons.inj hcomma).1 hclose.notComma
        · obtain ⟨rfl, -⟩ := cons.inj hitems
          obtain ⟨hholds, rfl⟩ := (hitem tail).mp hfirst
          rw [hskip] at hend
          exact ⟨by simpa using hholds, (cons.inj hend).2.symm⟩
      · rintro ⟨hholds, rfl⟩
        have hfirst := (hitem _).mpr ⟨hholds entry (by simp), rfl⟩
        exact readItems_last_item hclose.notComma hfirst hskip fuel
    | cons next entries =>
      have hitem := hentry _ (delimited_comma (joined written (next :: entries) ++ close :: rest))
      have hskip := skip_cons comma (by decide)
        (joined written (next :: entries) ++ close :: rest)
      have hlater := ih hrest (cons_ne_nil _ _) (Nat.le_of_succ_le_succ hfuel)
      rw [joined_cons, append_assoc, cons_append]
      constructor
      · intro hread
        obtain ⟨first, tail, hfirst, ⟨others, items, hcomma, hothers, hitems⟩ | ⟨-, hend, hitems⟩⟩ :=
          readItems_cases hread
        · obtain ⟨rfl, rfl⟩ := cons.inj hitems
          obtain ⟨hholds, rfl⟩ := (hitem tail).mp hfirst
          rw [hskip] at hcomma
          obtain ⟨-, rfl⟩ := cons.inj hcomma
          obtain ⟨hconditions, hafter⟩ := hlater.mp hothers
          exact ⟨forall_mem_cons.mpr ⟨hholds, hconditions⟩, hafter⟩
        · cases (cons.inj hitems).2
      · rintro ⟨hholds, hafter⟩
        obtain ⟨hfirst, hconditions⟩ := forall_mem_cons.mp hholds
        exact readItems_more_items ((hitem _).mpr ⟨hfirst, rfl⟩) hskip
          (hlater.mpr ⟨hconditions, hafter⟩)

theorem readSequence_iff (hclose : Closing close)
    (hexact : ∀ entry ∈ entries, Exact item (written entry) (found entry) (condition entry))
    (hstarts : ∀ entry ∈ entries, ∃ first text, written entry = first :: text ∧
      isSpace first = false ∧ first ≠ close)
    {fuel : Nat} (hfuel : entries.length ≤ fuel) {rest after : Bytes} :
    readSequence item close fuel (joined written entries ++ close :: rest) =
        some (entries.map found, after) ↔
      (∀ entry ∈ entries, condition entry) ∧ after = rest := by
  cases entries with
  | nil =>
    have hskip := skip_cons close hclose.notSpace rest
    have hnone : joined written [] = [] := rfl
    simp only [readSequence, hnone, nil_append, hskip, if_pos, map_nil, Option.some.injEq,
      Prod.mk.injEq, true_and, not_mem_nil, false_implies, implies_true, eq_comm]
  | cons entry entries =>
    obtain ⟨first, text, hwritten, hspace, hfirst⟩ := hstarts entry (by simp)
    have hhead : ∃ tail, joined written (entry :: entries) ++ close :: rest = first :: tail := by
      cases entries with
      | nil => exact ⟨_, by rw [joined_singleton, hwritten]; rfl⟩
      | cons next entries => exact ⟨_, by rw [joined_cons, hwritten]; rfl⟩
    obtain ⟨tail, htail⟩ := hhead
    rw [← readItems_iff hclose hexact (cons_ne_nil _ _) hfuel, readSequence, htail]
    simp only [skip_cons _ hspace, if_neg hfirst]

theorem length_le_joined (hstarts : ∀ entry ∈ entries, written entry ≠ []) :
    entries.length ≤ (joined written entries).length ∧
      ∀ entry ∈ entries, (written entry).length ≤ (joined written entries).length := by
  induction entries with
  | nil => simp
  | cons entry entries ih =>
    obtain ⟨hentry, hrest⟩ := forall_mem_cons.mp hstarts
    have hpos := length_pos_iff.mpr hentry
    cases entries with
    | nil =>
      rw [joined_singleton]
      exact ⟨hpos, by simp⟩
    | cons next entries =>
      obtain ⟨hlength, hitems⟩ := ih hrest
      rw [length_cons (a := entry), joined_cons, length_append, length_cons (a := comma)]
      refine ⟨by omega, forall_mem_cons.mpr ⟨by omega, fun other hother ↦ ?_⟩⟩
      have hother := hitems other hother
      omega

theorem mem_joined {byte : UInt8} (hbyte : byte ∈ joined written entries) :
    byte = comma ∨ ∃ entry ∈ entries, byte ∈ written entry := by
  induction entries with
  | nil => cases hbyte
  | cons entry entries ih =>
    cases entries with
    | nil =>
      rw [joined_singleton] at hbyte
      exact .inr ⟨entry, by simp, hbyte⟩
    | cons next entries =>
      rw [joined_cons] at hbyte
      rcases mem_append.mp hbyte with hfirst | hlater
      · exact .inr ⟨entry, by simp, hfirst⟩
      · rcases mem_cons.mp hlater with hcomma | hothers
        · exact .inl hcomma
        · rcases ih hothers with hcomma | ⟨other, hother, hmem⟩
          · exact .inl hcomma
          · exact .inr ⟨other, mem_cons_of_mem _ hother, hmem⟩

end Entries

/-- What one reader gives before a text has ended, the other gives with more behind it. -/
def Extends (item item' : Bytes → Option (α × Bytes)) : Prop :=
  ∀ text found rest, item text = some (found, rest) → rest ≠ [] →
    ∀ more, item' (text ++ more) = some (found, rest ++ more)

theorem readItems_extends {item' : Bytes → Option (α × Bytes)} (hitem : Extends item item')
    {fuel fuel' : Nat} (hfuel : fuel ≤ fuel') {text after : Bytes} {items : List α}
    (hread : readItems item close fuel text = some (items, after)) (more : Bytes) :
    readItems item' close fuel' (text ++ more) = some (items, after ++ more) := by
  induction fuel generalizing fuel' text items with
  | zero => cases hread
  | succ fuel ih =>
    obtain ⟨fuel', rfl⟩ : ∃ less, fuel' = less + 1 := ⟨fuel' - 1, by omega⟩
    have hfilled {rest tail : Bytes} {byte : UInt8} (hskip : skip rest = byte :: tail) : rest ≠ [] := by
      rintro rfl
      cases hskip
    obtain ⟨first, rest, hfirst, ⟨tail, others, hskip, hothers, rfl⟩ | ⟨hclose, hskip, rfl⟩⟩ :=
      readItems_cases hread
    · exact readItems_more_items (hitem _ _ _ hfirst (hfilled hskip) more) (skip_append hskip more)
        (ih (by omega) hothers)
    · exact readItems_last_item hclose (hitem _ _ _ hfirst (hfilled hskip) more)
        (skip_append hskip more) fuel'

theorem readSequence_extends {item' : Bytes → Option (α × Bytes)} (hitem : Extends item item')
    {fuel fuel' : Nat} (hfuel : fuel ≤ fuel') {text after : Bytes} {items : List α}
    (hread : readSequence item close fuel text = some (items, after)) (more : Bytes) :
    readSequence item' close fuel' (text ++ more) = some (items, after ++ more) := by
  rw [readSequence] at hread ⊢
  split at hread
  · cases hread
  · rename_i byte rest hskip
    simp only [skip_append hskip more]
    split at hread
    · rename_i hend
      cases hread
      rw [if_pos hend]
    · rename_i hmore
      rw [if_neg hmore]
      exact readItems_extends hitem hfuel hread more

end Items

def opensObject : UInt8 := 0x7B
def closesObject : UInt8 := 0x7D
def opensArray : UInt8 := 0x5B
def closesArray : UInt8 := 0x5D
def colon : UInt8 := 0x3A

def readMember (value : Bytes → Option (Document × Bytes)) (text : Bytes) :
    Option ((Bytes × Document) × Bytes) :=
  match skip text with
  | [] => none
  | byte :: rest =>
    if byte = quote then
      match readString rest with
      | none => none
      | some (key, rest) =>
        match skip rest with
        | [] => none
        | byte :: rest =>
          if byte = colon then (value rest).map fun (document, after) ↦ ((key, document), after)
          else none
    else none

/-- The fuel bounds the depth of a document and the number of items in one list. -/
def readValue : Nat → Bytes → Option (Document × Bytes)
  | 0, _ => none
  | fuel + 1, text =>
    match skip text with
    | [] => none
    | byte :: rest =>
      if byte = quote then (readString rest).map fun (content, after) ↦ (.text content, after)
      else if byte = opensObject then
        (readSequence (readMember (readValue fuel)) closesObject fuel rest).map
          fun (members, after) ↦ (.object members, after)
      else if byte = opensArray then
        (readSequence (readValue fuel) closesArray fuel rest).map
          fun (items, after) ↦ (.array items, after)
      else readWord (byte :: rest)

def parse (text : Bytes) : Option Document :=
  match readValue (text.length + 1) text with
  | none => none
  | some (document, rest) => if (skip rest).isEmpty then some document else none

/-! ## Texts put together -/

/-- The text is read as the document exactly if the condition holds, whatever follows the text. -/
structure ReadsAs (text : Bytes) (document : Document) (condition : Prop) : Prop where
  starts : ∃ first rest, text = first :: rest ∧ isSpace first = false ∧ first ≠ closesArray
  printed : condition → ∀ byte ∈ text, 0x20 ≤ byte
  reads : ∀ fuel, text.length ≤ fuel → Exact (readValue fuel) text document condition

theorem ReadsAs.of_iff {text : Bytes} {document : Document} {condition other : Prop}
    (hreads : ReadsAs text document condition) (hiff : condition ↔ other) :
    ReadsAs text document other := propext hiff ▸ hreads

theorem exists_fuel {text : Bytes} {first : UInt8} {rest : Bytes} (htext : text = first :: rest)
    {fuel : Nat} (hfuel : text.length ≤ fuel) : ∃ less, fuel = less + 1 ∧ rest.length ≤ less := by
  rw [htext, length_cons] at hfuel
  exact ⟨fuel - 1, by omega, by omega⟩

theorem printed_append {front back : Bytes} (hfront : ∀ byte ∈ front, 0x20 ≤ byte)
    (hback : ∀ byte ∈ back, 0x20 ≤ byte) : ∀ byte ∈ front ++ back, (0x20 : UInt8) ≤ byte :=
  forall_mem_append.mpr ⟨hfront, hback⟩

theorem map_eq_some_iff_of_injective {α β γ : Type} {make : α → β}
    (hinjective : Function.Injective make) {read : Option (α × γ)} {found : α} {after : γ} :
    (read.map fun (item, rest) ↦ (make item, rest)) = some (make found, after) ↔
      read = some (found, after) := by
  cases read with
  | none => simp
  | some pair =>
    obtain ⟨item, rest⟩ := pair
    simp [hinjective.eq_iff]

theorem readsAs_text (content : Bytes) :
    ReadsAs (quote :: (content ++ [quote])) (.text content) (Clean content) where
  starts := ⟨_, _, rfl, by decide, by decide⟩
  printed hclean := by
    refine forall_mem_cons.mpr ⟨by decide, printed_append ?_ (forall_mem_singleton.mpr (by decide))⟩
    exact fun byte hbyte ↦ (hclean.1 byte hbyte).1
  reads fuel hfuel rest _ after := by
    obtain ⟨fuel, rfl, -⟩ := exists_fuel rfl hfuel
    have hskip := skip_cons quote (by decide) (content ++ quote :: rest)
    rw [cons_append, append_assoc, singleton_append, readValue, hskip]
    simp only [if_pos]
    rw [map_eq_some_iff_of_injective (fun _ _ heq ↦ Document.text.inj heq)]
    exact readString_iff

theorem isSpace_of_isWordByte {byte : UInt8} (hbyte : isWordByte byte) : isSpace byte = false := by
  cases hspace : isSpace byte with
  | false => rfl
  | true =>
    simp only [isSpace, Bool.or_eq_true, decide_eq_true_eq] at hspace
    rcases hspace with ((rfl | rfl) | rfl) | rfl
    all_goals exact absurd hbyte (by decide)

theorem printed_of_isWordByte {byte : UInt8} (hbyte : isWordByte byte) : 0x20 ≤ byte := by
  rw [UInt8.le_iff_toNat_le]
  simp only [isWordByte, isDigit, Bool.or_eq_true, Bool.and_eq_true, decide_eq_true_eq,
    UInt8.le_iff_toNat_le, ← UInt8.toNat_inj] at hbyte
  have h20 : (0x20 : UInt8).toNat = 32 := rfl
  have h2b : (0x2B : UInt8).toNat = 43 := rfl
  have h2d : (0x2D : UInt8).toNat = 45 := rfl
  have h2e : (0x2E : UInt8).toNat = 46 := rfl
  have h30 : (0x30 : UInt8).toNat = 48 := rfl
  have h41 : (0x41 : UInt8).toNat = 65 := rfl
  have h61 : (0x61 : UInt8).toNat = 97 := rfl
  omega

theorem readsAs_word {word : Bytes} {document : Document}
    (hmeaning : wordMeaning word = some document) (hword : ∀ byte ∈ word, isWordByte byte) :
    ReadsAs word document True := by
  cases word with
  | nil => cases hmeaning
  | cons first tail =>
    have hfirst := hword first (by simp)
    have hspace := isSpace_of_isWordByte hfirst
    have hne (mark : UInt8) (hmark : isWordByte mark = false) : first ≠ mark := by
      rintro rfl
      rw [hfirst] at hmark
      cases hmark
    have hquote : first ≠ quote := hne quote (by decide)
    have hobject : first ≠ opensObject := hne opensObject (by decide)
    have harray : first ≠ opensArray := hne opensArray (by decide)
    refine ⟨⟨first, tail, rfl, hspace, hne closesArray (by decide)⟩,
      fun _ byte hbyte ↦ printed_of_isWordByte (hword byte hbyte), ?_⟩
    intro fuel hfuel rest hrest after
    obtain ⟨fuel, rfl, -⟩ := exists_fuel rfl hfuel
    have hread := readWord_append hword hrest
    rw [cons_append] at hread ⊢
    rw [readValue, skip_cons _ hspace]
    simp only [if_neg hquote, if_neg hobject, if_neg harray, hread, hmeaning, map_some,
      Option.some.injEq, Prod.mk.injEq, true_and, eq_comm]

theorem readsAs_flag (on : Bool) :
    ReadsAs (if on then ascii "true" else ascii "false") (.flag on) True := by
  cases on
  · exact readsAs_word rfl (all_eq_true.mp (by decide))
  · exact readsAs_word rfl (all_eq_true.mp (by decide))

theorem readsAs_number {leading : UInt8} {digits : Bytes}
    (hdigits : ∀ byte ∈ leading :: digits, isDigit byte)
    (hleading : leading = 0x30 → digits = []) :
    ReadsAs (leading :: digits) (.number (leading :: digits)) True := by
  obtain ⟨hfirst, hrest⟩ := forall_mem_cons.mp hdigits
  have hword : ∀ byte ∈ leading :: digits, isWordByte byte := by
    intro byte hbyte
    simp [isWordByte, hdigits byte hbyte]
  have hsign : leading ≠ 0x2D := by
    rintro rfl
    exact absurd hfirst (by decide)
  have hnumber : isNumber (leading :: digits) := by
    rw [isNumber, if_neg hsign, isUnsigned, hfirst, Bool.true_and]
    split
    · rename_i hzero
      rw [hleading hzero]
      rfl
    · rw [dropWhile_eq_nil_iff.mpr hrest]
      rfl
  have hletter (word : Bytes) (hnot : word.head?.all isDigit = false) : leading :: digits ≠ word := by
    rintro rfl
    simp [hfirst] at hnot
  refine readsAs_word ?_ hword
  rw [wordMeaning, if_neg (hletter _ (by decide)), if_neg (hletter _ (by decide)),
    if_neg (hletter _ (by decide)), if_pos hnumber]

section Lists

variable {ε : Type} {entries : List ε} {written : ε → Bytes} {condition : ε → Prop}

theorem closing_array : Closing closesArray := ⟨by decide, by decide, by decide⟩

theorem closing_object : Closing closesObject := ⟨by decide, by decide, by decide⟩

theorem readsAs_array {found : ε → Document}
    (hentries : ∀ entry ∈ entries, ReadsAs (written entry) (found entry) (condition entry)) :
    ReadsAs (opensArray :: (joined written entries ++ [closesArray]))
      (.array (entries.map found)) (∀ entry ∈ entries, condition entry) where
  starts := ⟨_, _, rfl, by decide, by decide⟩
  printed hconditions := by
    refine forall_mem_cons.mpr ⟨by decide, printed_append (fun byte hbyte ↦ ?_)
      (forall_mem_singleton.mpr (by decide))⟩
    rcases mem_joined hbyte with rfl | ⟨entry, hentry, hmem⟩
    · decide
    · exact (hentries entry hentry).printed (hconditions entry hentry) byte hmem
  reads fuel hfuel rest _ after := by
    obtain ⟨fuel, rfl, hless⟩ := exists_fuel rfl hfuel
    rw [length_append] at hless
    have hstarts := fun entry hentry ↦ (hentries entry hentry).starts
    have hnonempty : ∀ entry ∈ entries, written entry ≠ [] := by
      intro entry hentry
      obtain ⟨first, text, htext, -⟩ := hstarts entry hentry
      rw [htext]
      exact cons_ne_nil _ _
    obtain ⟨hcount, hlengths⟩ := length_le_joined hnonempty
    have hexact : ∀ entry ∈ entries,
        Exact (readValue fuel) (written entry) (found entry) (condition entry) := by
      intro entry hentry
      have hlength := hlengths entry hentry
      exact (hentries entry hentry).reads fuel (by omega)
    rw [cons_append, append_assoc, singleton_append, readValue, skip_cons opensArray (by decide)]
    simp only [if_neg (show opensArray ≠ quote by decide),
      if_neg (show opensArray ≠ opensObject by decide), if_pos]
    rw [map_eq_some_iff_of_injective (fun _ _ heq ↦ Document.array.inj heq)]
    exact readSequence_iff closing_array hexact hstarts (by omega)

def memberText (key value : Bytes) : Bytes := quote :: (key ++ quote :: colon :: value)

theorem readMember_iff {value : Bytes → Option (Document × Bytes)} {key text : Bytes}
    {document : Document} {holds : Prop} (hkey : Clean key)
    (hvalue : Exact value text document holds) :
    Exact (readMember value) (memberText key text) (key, document) holds := by
  intro rest hrest after
  have hread : readString (key ++ quote :: (colon :: (text ++ rest))) =
      some (key, colon :: (text ++ rest)) := readString_iff.mpr ⟨hkey, rfl⟩
  have hquote := skip_cons quote (by decide) (key ++ quote :: (colon :: (text ++ rest)))
  have hcolon := skip_cons colon (by decide) (text ++ rest)
  rw [memberText, cons_append, append_assoc, cons_append, cons_append, readMember, hquote]
  simp only [if_pos, hread, hcolon]
  rw [map_eq_some_iff_of_injective (fun _ _ heq ↦ (Prod.mk.inj heq).2)]
  exact hvalue rest hrest after

variable {key : ε → Bytes} {found : ε → Document}

def objectText (key written : ε → Bytes) (entries : List ε) : Bytes :=
  opensObject :: (joined (fun entry ↦ memberText (key entry) (written entry)) entries ++ [closesObject])

theorem readsAs_object (hkeys : ∀ entry ∈ entries, Clean (key entry))
    (hentries : ∀ entry ∈ entries, ReadsAs (written entry) (found entry) (condition entry)) :
    ReadsAs (objectText key written entries)
      (.object (entries.map fun entry ↦ (key entry, found entry)))
      (∀ entry ∈ entries, condition entry) where
  starts := ⟨_, _, rfl, by decide, by decide⟩
  printed hconditions := by
    refine forall_mem_cons.mpr ⟨by decide, printed_append (fun byte hbyte ↦ ?_)
      (forall_mem_singleton.mpr (by decide))⟩
    rcases mem_joined hbyte with rfl | ⟨entry, hentry, hmem⟩
    · decide
    · have hvalue := (hentries entry hentry).printed (hconditions entry hentry)
      have hkey := fun byte hbyte ↦ ((hkeys entry hentry).1 byte hbyte).1
      refine forall_mem_cons.mpr ⟨by decide, printed_append hkey ?_⟩ byte hmem
      exact forall_mem_cons.mpr ⟨by decide, forall_mem_cons.mpr ⟨by decide, hvalue⟩⟩
  reads fuel hfuel rest _ after := by
    rw [objectText] at hfuel ⊢
    obtain ⟨fuel, rfl, hless⟩ := exists_fuel rfl hfuel
    rw [length_append] at hless
    have hnonempty : ∀ entry ∈ entries, memberText (key entry) (written entry) ≠ [] :=
      fun _ _ ↦ cons_ne_nil _ _
    obtain ⟨hcount, hlengths⟩ := length_le_joined hnonempty
    have hexact : ∀ entry ∈ entries, Exact (readMember (readValue fuel))
        (memberText (key entry) (written entry)) (key entry, found entry) (condition entry) := by
      intro entry hentry
      have hlength := hlengths entry hentry
      have hmember : (written entry).length ≤ (memberText (key entry) (written entry)).length := by
        simp only [memberText, length_cons, length_append]
        omega
      exact readMember_iff (hkeys entry hentry) ((hentries entry hentry).reads fuel (by omega))
    rw [cons_append, append_assoc, singleton_append, readValue, skip_cons opensObject (by decide)]
    simp only [if_neg (show opensObject ≠ quote by decide), if_pos]
    rw [map_eq_some_iff_of_injective (fun _ _ heq ↦ Document.object.inj heq)]
    exact readSequence_iff closing_object hexact
      (fun entry _ ↦ ⟨quote, _, rfl, by decide, by decide⟩) (by omega)

end Lists

theorem readMember_extends {value value' : Bytes → Option (Document × Bytes)}
    (hvalue : Extends value value') : Extends (readMember value) (readMember value') := by
  intro text found after hread hfilled more
  rw [readMember] at hread ⊢
  cases hskip : skip text with
  | nil =>
    rw [hskip] at hread
    cases hread
  | cons byte tail =>
    simp only [hskip, skip_append hskip more] at hread ⊢
    split_ifs at hread ⊢ with hquote
    cases hkey : readString tail with
    | none =>
      rw [hkey] at hread
      cases hread
    | some pair =>
      obtain ⟨key, rest⟩ := pair
      simp only [hkey, readString_append hkey more] at hread ⊢
      cases hcolon : skip rest with
      | nil =>
        rw [hcolon] at hread
        cases hread
      | cons mark tail =>
        simp only [hcolon, skip_append hcolon more] at hread ⊢
        split_ifs at hread ⊢ with hmark
        obtain ⟨⟨document, after'⟩, hdocument, heq⟩ := map_eq_some_iff.mp hread
        cases heq
        rw [hvalue _ _ _ hdocument hfilled more]
        rfl

theorem readValue_more {fuel fuel' : Nat} (hfuel : fuel ≤ fuel') {text rest : Bytes}
    {document : Document} (hread : readValue fuel text = some (document, rest))
    (hended : rest ≠ [] ∨ ∃ members, document = .object members) (more : Bytes) :
    readValue fuel' (text ++ more) = some (document, rest ++ more) := by
  induction fuel generalizing fuel' text rest document more with
  | zero => cases hread
  | succ fuel ih =>
    obtain ⟨fuel', rfl⟩ : ∃ less, fuel' = less + 1 := ⟨fuel' - 1, by omega⟩
    have hextends : Extends (readValue fuel) (readValue fuel') :=
      fun _ _ _ hvalue hfilled more ↦ ih (by omega) hvalue (.inl hfilled) more
    rw [readValue] at hread ⊢
    cases hskip : skip text with
    | nil =>
      rw [hskip] at hread
      cases hread
    | cons byte tail =>
      simp only [hskip, skip_append hskip more] at hread ⊢
      split_ifs at hread ⊢ with hquote hobject harray
      · obtain ⟨⟨content, after⟩, hstring, heq⟩ := map_eq_some_iff.mp hread
        cases heq
        rw [readString_append hstring more]
        rfl
      · obtain ⟨⟨members, after⟩, hmembers, heq⟩ := map_eq_some_iff.mp hread
        cases heq
        rw [readSequence_extends (readMember_extends hextends) (by omega) hmembers more]
        rfl
      · obtain ⟨⟨items, after⟩, hitems, heq⟩ := map_eq_some_iff.mp hread
        cases heq
        rw [readSequence_extends hextends (by omega) hitems more]
        rfl
      · rcases hended with hfilled | ⟨members, rfl⟩
        · exact readWord_more hread hfilled more
        · obtain ⟨meaning, hmeaning, heq⟩ := map_eq_some_iff.mp hread
          cases heq
          rw [wordMeaning] at hmeaning
          split_ifs at hmeaning <;> cases hmeaning

section Whole

variable {text : Bytes} {document : Document} {condition : Prop}

theorem ReadsAs.parse_iff (hreads : ReadsAs text document condition) :
    parse text = some document ↔ condition := by
  have hexact := hreads.reads (text.length + 1) (by omega) [] (fun _ hnone ↦ nomatch hnone)
  rw [append_nil] at hexact
  rw [parse]
  constructor
  · intro hparse
    split at hparse
    · cases hparse
    · rename_i found rest hread
      split_ifs at hparse
      cases hparse
      exact ((hexact rest).mp hread).1
  · intro hcondition
    rw [(hexact []).mpr ⟨hcondition, rfl⟩]
    rfl

theorem ReadsAs.parse_cString_iff {members : List (Bytes × Document)}
    (hreads : ReadsAs text (.object members) condition) :
    parse (cString text) = some (.object members) ↔ condition := by
  constructor
  · intro hparse
    rw [parse] at hparse
    split at hparse
    · cases hparse
    · rename_i found rest hread
      split_ifs at hparse
      cases hparse
      have hlength : (cString text).length + 1 ≤ text.length + 1 :=
        Nat.succ_le_succ ( takeWhile_prefix _).length_le
      have hwhole := readValue_more hlength hread (.inr ⟨members, rfl⟩)
        (text.dropWhile fun byte ↦ byte != 0)
      rw [cString, takeWhile_append_dropWhile] at hwhole
      have hexact := hreads.reads (text.length + 1) (by omega) [] (fun _ hnone ↦ nomatch hnone)
      rw [append_nil] at hexact
      exact ((hexact _).mp hwhole).1
  · intro hcondition
    have hzero : 0 ∉ text := fun hmem ↦ absurd (hreads.printed hcondition 0 hmem) (by decide)
    rw [cString_eq_self hzero]
    exact hreads.parse_iff.mpr hcondition

end Whole

end DhcpServer.Library.JsonReading
