import DhcpServer.Dhcp.ClientName
import DhcpServer.Library.Trim
import DhcpServer.Library.Utf8
import Mathlib.Data.List.Infix

/-!
# What is left of a name a client reports

`sanitize` keeps characters by their lead byte and the tail bytes behind it. It does not look at the second
byte where the lead byte restricts that, so what it keeps may be no UTF-8. The short label of option 81 is
cut out behind it, so it may end with a blank.
-/

/-!
## The characters `sanitize` keeps

`sanitize` keeps characters by their lead byte and the tail bytes behind it, as many as fit into the room.
-/

namespace DhcpServer.Dhcp.ClientName

open Library Utf8 List

/-- The characters `filterChars` takes over when there is room for all of them. -/
def keptChars : (fuel : Nat) → Bytes → List Bytes
  | 0, _ => []
  | _ + 1, [] => []
  | fuel + 1, c :: rest =>
    match classify c rest with
    | (charLen, true) => (c :: rest).take charLen :: keptChars fuel (rest.drop (charLen - 1))
    | (_, false) => keptChars fuel rest

def fitting : (room : Nat) → List Bytes → List Bytes
  | _, [] => []
  | room, character :: characters =>
    if room < character.length then [] else character :: fitting (room - character.length) characters

def charsOf (text : Bytes) : List Bytes := fitting kMaxLen (keptChars text.length text)

/-- A character as `classify` lets it through. -/
def Kept (character : Bytes) : Prop :=
  isSequence character = true ∧ ∀ byte ∈ character, 0x20 ≤ byte ∧ byte ≠ 0x7F ∧ byte ≠ 0x7C

theorem isContinuation_some (byte : UInt8) : isContinuation (some byte) = isTail byte := by
  have hall : ∀ code < 256, isContinuation (some (UInt8.ofNat code)) = isTail (UInt8.ofNat code) := by
    decide +kernel
  have hbyte := hall byte.toNat byte.toNat_lt
  rwa [UInt8.ofNat_toNat] at hbyte

theorem printable_of_tail {byte : UInt8} (htail : isTail byte) :
    0x20 ≤ byte ∧ byte ≠ 0x7F ∧ byte ≠ 0x7C := by
  have hrange := isTail_iff.mp htail
  refine ⟨UInt8.le_iff_toNat_le.mpr (Nat.le_trans (by decide) hrange.1), ?_, ?_⟩
  · rintro rfl
    exact absurd htail (by decide)
  · rintro rfl
    exact absurd htail (by decide)

theorem exists_tail {rest : Bytes} (hcontinues : isContinuation rest[0]?) :
    ∃ byte more, rest = byte :: more ∧ isTail byte := by
  cases rest with
  | nil => cases hcontinues
  | cons byte more => exact ⟨byte, more, rfl, (isContinuation_some byte).symm.trans hcontinues⟩

theorem kept_of_sequence {lead : UInt8} {tail : Bytes} (hsequence : isSequence (lead :: tail))
    (hlead : 0x80 ≤ lead) (htail : ∀ byte ∈ tail, isTail byte) : Kept (lead :: tail) := by
  refine ⟨hsequence, forall_mem_cons.mpr ⟨?_, fun byte hbyte ↦ printable_of_tail (htail byte hbyte)⟩⟩
  have hlarge : 128 ≤ lead.toNat := UInt8.le_iff_toNat_le.mp hlead
  refine ⟨UInt8.le_iff_toNat_le.mpr (Nat.le_trans (by decide) hlarge), ?_, ?_⟩
  · rintro rfl
    exact absurd hlead (by decide)
  · rintro rfl
    exact absurd hlead (by decide)

theorem kept_of_classify {c : UInt8} {rest : Bytes} {charLen : Nat}
    (hclassify : classify c rest = (charLen, true)) :
    ∃ tail more, rest = tail ++ more ∧ charLen = tail.length + 1 ∧ Kept (c :: tail) := by
  unfold classify at hclassify
  split_ifs at hclassify with hascii htwo hthree hfour
  · obtain ⟨rfl, hbar⟩ := Prod.mk.inj hclassify
    refine ⟨[], rest, rfl, rfl, ?_, forall_mem_singleton.mpr ⟨hascii.1, ?_, by simpa using hbar⟩⟩
    · exact decide_eq_true (UInt8.le_of_lt hascii.2)
    · rintro rfl
      exact absurd hascii.2 (by decide)
  · obtain ⟨rfl, hcontinues⟩ := Prod.mk.inj hclassify
    obtain ⟨second, more, rfl, hsecond⟩ := exists_tail hcontinues
    refine ⟨[second], more, rfl, rfl, kept_of_sequence ?_ (UInt8.le_trans (by decide) htwo.1) (by simpa)⟩
    simp [isSequence, htwo.1, htwo.2, hsecond]
  · obtain ⟨rfl, hcontinues⟩ := Prod.mk.inj hclassify
    obtain ⟨hone, htwo⟩ := Bool.and_eq_true_iff.mp hcontinues
    obtain ⟨second, more, rfl, hsecond⟩ := exists_tail hone
    obtain ⟨third, more, rfl, hthird⟩ := exists_tail htwo
    refine ⟨[second, third], more, rfl, rfl,
      kept_of_sequence ?_ (UInt8.le_trans (by decide) hthree.1) (by simp [hsecond, hthird])⟩
    simp [isSequence, hthree.1, hthree.2, hsecond, hthird]
  · obtain ⟨rfl, hcontinues⟩ := Prod.mk.inj hclassify
    obtain ⟨hcontinues, hthree⟩ := Bool.and_eq_true_iff.mp hcontinues
    obtain ⟨hone, htwo⟩ := Bool.and_eq_true_iff.mp hcontinues
    obtain ⟨second, more, rfl, hsecond⟩ := exists_tail hone
    obtain ⟨third, more, rfl, hthird⟩ := exists_tail htwo
    obtain ⟨fourth, more, rfl, hfourth⟩ := exists_tail hthree
    refine ⟨[second, third, fourth], more, rfl, rfl,
      kept_of_sequence ?_ (UInt8.le_trans (by decide) hfour.1) (by simp [hsecond, hthird, hfourth])⟩
    simp [isSequence, hfour.1, hfour.2, hsecond, hthird, hfourth]
  · cases (Prod.mk.inj hclassify).2

theorem isContinuation_of_tail {byte : UInt8} (htail : 128 ≤ byte.toNat ∧ byte.toNat ≤ 191) :
    isContinuation (some byte) := (isContinuation_some byte).trans (isTail_iff.mpr htail)

theorem classify_of_kept {c : UInt8} {tail : Bytes} (hkept : Kept (c :: tail)) (more : Bytes) :
    classify c (tail ++ more) = (tail.length + 1, true) := by
  obtain ⟨hsequence, hprintable⟩ := hkept
  obtain ⟨hlow, hdelete, hbar⟩ := hprintable c mem_cons_self
  have h7f : c.toNat ≠ 127 := fun hsame ↦ hdelete (UInt8.toNat_inj.mp hsame)
  have hranges : classify c (tail ++ more) =
      if 32 ≤ c.toNat ∧ c.toNat < 127 then (1, c != 0x7C)
      else if 194 ≤ c.toNat ∧ c.toNat ≤ 223 then (2, isContinuation (tail ++ more)[0]?)
      else if 224 ≤ c.toNat ∧ c.toNat ≤ 239 then
        (3, isContinuation (tail ++ more)[0]? && isContinuation (tail ++ more)[1]?)
      else if 240 ≤ c.toNat ∧ c.toNat ≤ 244 then
        (4, isContinuation (tail ++ more)[0]? && isContinuation (tail ++ more)[1]? &&
          isContinuation (tail ++ more)[2]?)
      else (1, false) := rfl
  rw [hranges]
  match tail with
  | [] =>
    have hascii : c.toNat ≤ 127 := by simpa [isSequence, UInt8.le_iff_toNat_le] using hsequence
    rw [if_pos ⟨UInt8.le_iff_toNat_le.mp hlow, by omega⟩]
    simp [hbar]
  | [second] =>
    have hbytes := isSequence_two.mp hsequence
    rw [if_neg (by omega), if_pos (by omega)]
    exact Prod.ext rfl (isContinuation_of_tail hbytes.2)
  | [second, third] =>
    have hbytes := isSequence_three.mp hsequence
    rw [if_neg (by omega), if_neg (by omega), if_pos (by omega)]
    simp [isContinuation_of_tail hbytes.1.2, isContinuation_of_tail hbytes.2]
  | [second, third, fourth] =>
    have hbytes := isSequence_four.mp hsequence
    rw [if_neg (by omega), if_neg (by omega), if_neg (by omega), if_pos (by omega)]
    simp [isContinuation_of_tail hbytes.1.1.2, isContinuation_of_tail hbytes.1.2,
      isContinuation_of_tail hbytes.2]
  | _ :: _ :: _ :: _ :: _ => cases hsequence

theorem kept_of_keptChars {fuel : Nat} {text character : Bytes} (hmem : character ∈ keptChars fuel text) :
    Kept character := by
  induction fuel generalizing text with
  | zero => cases hmem
  | succ fuel ih =>
    cases text with
    | nil => cases hmem
    | cons c rest =>
      rw [keptChars] at hmem
      split at hmem
      · rename_i charLen hclassify
        obtain ⟨tail, more, rfl, rfl, hkept⟩ := kept_of_classify hclassify
        rcases mem_cons.mp hmem with rfl | hlater
        · rw [take_succ_cons, take_left]
          exact hkept
        · exact ih hlater
      · exact ih hmem

theorem filterChars_eq (fuel : Nat) (text out : Bytes) (hout : out.length ≤ kMaxLen) :
    filterChars fuel text out = out ++ (fitting (kMaxLen - out.length) (keptChars fuel text)).flatten := by
  induction fuel generalizing text out with
  | zero => simp [filterChars, keptChars, fitting]
  | succ fuel ih =>
    cases text with
    | nil => simp [filterChars, keptChars, fitting]
    | cons c rest =>
      rw [filterChars, keptChars]
      rcases hclassify : classify c rest with ⟨charLen, _ | _⟩
      · exact ih rest out hout
      · obtain ⟨tail, more, rfl, rfl, -⟩ := kept_of_classify hclassify
        have htaken : (c :: (tail ++ more)).take (tail.length + 1) = c :: tail := by
          rw [take_succ_cons, take_left]
        simp only [htaken, fitting, length_cons]
        by_cases hroom : kMaxLen < out.length + (tail.length + 1)
        · rw [if_pos hroom, if_pos (by omega), flatten_nil, append_nil]
        · rw [if_neg hroom, if_neg (by omega), ih _ _ (by simp; omega), flatten_cons, append_assoc]
          congr 4
          simp
          omega

theorem fitting_sublist (room : Nat) (characters : List Bytes) :
    (fitting room characters).Sublist characters := by
  induction characters generalizing room with
  | nil => exact .refl []
  | cons character characters ih =>
    rw [fitting]
    split_ifs
    · exact nil_sublist _
    · exact (ih _).cons_cons character

theorem length_fitting (room : Nat) (characters : List Bytes) :
    (fitting room characters).flatten.length ≤ room := by
  induction characters generalizing room with
  | nil => exact Nat.zero_le room
  | cons character characters ih =>
    rw [fitting]
    split_ifs with hroom
    · exact Nat.zero_le room
    · have hrest := ih (room - character.length)
      rw [flatten_cons, length_append]
      omega

theorem kept_of_charsOf {text character : Bytes} (hmem : character ∈ charsOf text) : Kept character :=
  kept_of_keptChars ((fitting_sublist _ _).subset hmem)

theorem charsOf_flatten {characters : List Bytes} (hkept : ∀ character ∈ characters, Kept character)
    (hlength : characters.flatten.length ≤ kMaxLen) : charsOf characters.flatten = characters := by
  have hread (fuel : Nat) (hfuel : characters.flatten.length ≤ fuel) :
      keptChars fuel characters.flatten = characters := by
    clear hlength
    induction characters generalizing fuel with
    | nil => cases fuel <;> rfl
    | cons character characters ih =>
      obtain ⟨hfirst, hrest⟩ := forall_mem_cons.mp hkept
      obtain ⟨c, tail, rfl, -⟩ := exists_lead hfirst.1
      cases fuel with
      | zero => simp at hfuel
      | succ fuel =>
        rw [flatten_cons, cons_append, keptChars, classify_of_kept hfirst]
        dsimp only
        rw [take_succ_cons, take_left, Nat.add_sub_cancel, drop_left, ih hrest fuel]
        simp at hfuel ⊢
        omega
  have hfits (room : Nat) (hroom : characters.flatten.length ≤ room) :
      fitting room characters = characters := by
    clear hread hlength hkept
    induction characters generalizing room with
    | nil => rfl
    | cons character characters ih =>
      rw [flatten_cons, length_append] at hroom
      rw [fitting, if_neg (by omega), ih _ (by omega)]
  rw [charsOf, hread _ le_rfl, hfits _ hlength]

end DhcpServer.Dhcp.ClientName

namespace DhcpServer.Dhcp.ClientName

open Library Utf8 List
open JsonReading (IsUtf8)

def space : UInt8 := 0x20
def dot : UInt8 := 0x2E

structure CleanName (name : Bytes) : Prop where
  utf8 : IsUtf8 name
  short : name.length ≤ 32
  printable : ∀ byte ∈ name, 0x20 ≤ byte ∧ byte ≠ 0x7F ∧ byte ≠ 0x7C
  first : name.head? ≠ some space
  last : name.getLast? ≠ some space
  sanitized : sanitize name = name

/-- No character that is kept has a second byte its lead byte does not admit. -/
def SecondsFit (text : Bytes) : Prop := ∀ character ∈ charsOf text, secondFits character = true

/-- The same for what stands before the first dot, and if there is a dot, no blank stands before it but
leading ones. -/
def LabelFits (text : Bytes) : Prop :=
  let label := (charsOf text).takeWhile (· != [dot])
  (∀ character ∈ label, secondFits character = true) ∧
    ([dot] ∈ charsOf text → label.getLast? = some [space] → ∀ character ∈ label, character = [space])

/-- The text of option 12, up to its first zero byte. -/
def hostText (options : Buffer) (len : Nat) : Bytes :=
  match findOption options len kOptHostName with
  | none => []
  | some value => (slice options value.start value.length).takeWhile (· != 0)

/-- The text of option 81 in either of its two forms. -/
def fqdnText (options : Buffer) (len : Nat) : Bytes :=
  match findOption options len kOptFqdn with
  | none => []
  | some value =>
    if value.length < 3 then []
    else
      let name : Buffer := fun i ↦ options (value.start + 3 + i)
      if options value.start &&& kFqdnFlagE != 0 then decodeDnsName name (value.length - 3)
      else (slice name 0 (value.length - 3)).takeWhile (· != 0)

/-- What the two options must be like: option 12 counts when more than blanks is kept of it. -/
def OptionsFit (options : Buffer) (len : Nat) : Prop :=
  if ∃ character ∈ charsOf (hostText options len), character ≠ [space] then
    SecondsFit (hostText options len)
  else LabelFits (fqdnText options len)

/-! ## Clean texts -/

theorem sanitize_eq (text : Bytes) : sanitize text = trimBy (· == space) (charsOf text).flatten := by
  rw [sanitize, filterChars_eq _ _ _ (Nat.zero_le _), nil_append]
  rfl

theorem Kept.ne_of_mem {character : Bytes} (hkept : Kept character) {ascii : UInt8} (hascii : ascii < 0x80)
    (hother : character ≠ [ascii]) : ∀ byte ∈ character, byte ≠ ascii := by
  obtain ⟨lead, tail, rfl, hwidth, htail⟩ := exists_lead hkept.1
  rintro byte hbyte rfl
  rcases mem_cons.mp hbyte with rfl | hlater
  · have hone : leadWidth byte = 1 := if_pos hascii
    obtain rfl : tail = [] := length_eq_zero_iff.mp (by omega)
    exact hother rfl
  · have hrange := isTail_iff.mp (htail byte hlater)
    have hsmall : byte.toNat < 128 := hascii
    omega

theorem Kept.undivided {character : Bytes} (hkept : Kept character) {ascii : UInt8} (hascii : ascii < 0x80) :
    Undivided (· == ascii) (· == [ascii]) character := by
  obtain ⟨lead, tail, hcharacter, -⟩ := exists_lead hkept.1
  refine ⟨by rw [hcharacter]; exact cons_ne_nil _ _, fun item hitem ↦ ?_⟩
  by_cases hsame : character = [ascii]
  · rw [hsame, mem_singleton] at hitem
    simp [hsame, hitem]
  · exact (beq_false_of_ne (hkept.ne_of_mem hascii hsame item hitem)).trans (beq_false_of_ne hsame).symm

variable {characters : List Bytes}

theorem trimBy_space (hkept : ∀ character ∈ characters, Kept character) :
    trimBy (· == space) characters.flatten = (trimBy (· == [space]) characters).flatten :=
  trimBy_flatten fun character hmem ↦ (hkept character hmem).undivided (by decide)

/-- A text made of few enough such characters is clean exactly if it is trimmed and its second bytes
fit. -/
theorem cleanName_flatten_iff (hkept : ∀ character ∈ characters, Kept character)
    (hlength : characters.flatten.length ≤ kMaxLen) :
    CleanName characters.flatten ↔ (∀ character ∈ characters, secondFits character = true) ∧
      characters.flatten.head? ≠ some space ∧ characters.flatten.getLast? ≠ some space := by
  have hsequence : ∀ character ∈ characters, isSequence character :=
    fun character hmem ↦ (hkept character hmem).1
  constructor
  · intro hclean
    exact ⟨(isUtf8_flatten_iff hsequence).mp hclean.utf8, hclean.first, hclean.last⟩
  · rintro ⟨hseconds, hfirst, hlast⟩
    refine ⟨(isUtf8_flatten_iff hsequence).mpr hseconds, hlength, fun byte hbyte ↦ ?_, hfirst, hlast, ?_⟩
    · obtain ⟨character, hmem, hbyte⟩ := mem_flatten.mp hbyte
      exact (hkept character hmem).2 byte hbyte
    · rw [sanitize_eq, charsOf_flatten hkept hlength, trimBy_eq_self_iff]
      constructor
      · intro byte hbyte
        rw [beq_eq_false_iff_ne]
        rintro rfl
        exact hfirst hbyte
      · intro byte hbyte
        rw [beq_eq_false_iff_ne]
        rintro rfl
        exact hlast hbyte

theorem sanitize_eq_flatten (text : Bytes) :
    sanitize text = (trimBy (· == [space]) (charsOf text)).flatten := by
  rw [sanitize_eq, trimBy_space fun character hmem ↦ kept_of_charsOf hmem]

theorem length_sanitize_le (text : Bytes) : (sanitize text).length ≤ kMaxLen := by
  rw [sanitize_eq]
  exact (trimBy_sublist _ _).length_le.trans (length_fitting _ _)

theorem head_sanitize (text : Bytes) : (sanitize text).head? ≠ some space := by
  rw [sanitize_eq]
  intro hhead
  have hnot := head_trimBy (· == space) (charsOf text).flatten space hhead
  simp at hnot

theorem last_sanitize (text : Bytes) : (sanitize text).getLast? ≠ some space := by
  rw [sanitize_eq]
  intro hlast
  have hnot := last_rdropWhile (· == space) ((charsOf text).flatten.dropWhile (· == space)) space hlast
  simp at hnot

variable {text character : Bytes}

theorem kept_of_trimmed (hmem : character ∈ trimBy (· == [space]) (charsOf text)) : Kept character :=
  kept_of_charsOf ((trimBy_sublist _ _).subset hmem)

theorem cleanName_sanitize_iff (text : Bytes) : CleanName (sanitize text) ↔ SecondsFit text := by
  have hlength := length_sanitize_le text
  have hhead := head_sanitize text
  have hlast := last_sanitize text
  rw [sanitize_eq_flatten] at hlength hhead hlast ⊢
  rw [cleanName_flatten_iff (fun _ hmem ↦ kept_of_trimmed hmem) hlength]
  constructor
  · rintro ⟨hseconds, -⟩ character hmem
    rcases mem_trimBy_or (p := (· == [space])) hmem with hinside | hspace
    · exact hseconds character hinside
    · rw [beq_iff_eq.mp hspace]
      rfl
  · intro hseconds
    exact ⟨fun character hmem ↦ hseconds character ((trimBy_sublist _ _).subset hmem), hhead, hlast⟩

/-- The characters before the first dot of the trimmed text. -/
def labelOf (text : Bytes) : List Bytes :=
  (trimBy (· == [space]) (charsOf text)).takeWhile fun character ↦ !(character == [dot])

theorem kept_of_labelOf (hmem : character ∈ labelOf text) : Kept character :=
  kept_of_trimmed ((takeWhile_sublist _).subset hmem)

theorem mem_charsOf_of_labelOf (hmem : character ∈ labelOf text) : character ∈ charsOf text :=
  (trimBy_sublist _ _).subset ((takeWhile_sublist _).subset hmem)

theorem shortLabel_eq (options : Buffer) (len : Nat) :
    shortLabel (fqdnOption options len) = (labelOf (fqdnText options len)).flatten := by
  have hfqdn : fqdnOption options len = (sanitize (fqdnText options len)).rdropWhile (· == dot) := by
    unfold fqdnOption fqdnText
    cases findOption options len kOptFqdn with
    | none => rfl
    | some value =>
      dsimp only
      split_ifs <;> rfl
  have hlabel : shortLabel (fqdnOption options len) =
      (fqdnOption options len).takeWhile fun byte ↦ !(byte == dot) := rfl
  rw [hlabel, hfqdn, takeWhile_rdropWhile, sanitize_eq_flatten,
    takeWhile_flatten fun _ hmem ↦ (kept_of_trimmed hmem).undivided (by decide)]
  rfl

theorem labelOf_of_no_dot {text : Bytes} (hdot : [dot] ∉ charsOf text) :
    labelOf text = trimBy (· == [space]) (charsOf text) := by
  apply takeWhile_eq_self_iff.mpr
  intro character hmem
  have hne : character ≠ [dot] := by
    rintro rfl
    exact hdot ((trimBy_sublist _ _).subset hmem)
  simpa using hne

theorem labelOf_of_dot {text : Bytes} (hdot : [dot] ∈ charsOf text) :
    labelOf text = ((charsOf text).takeWhile (· != [dot])).dropWhile (· == [space]) := by
  obtain ⟨front, back, htext, hfront⟩ := eq_append_cons_of_mem hdot
  have hlabel (rest : List Bytes) (before : List Bytes) (hbefore : [dot] ∉ before) :
      ((before ++ [dot] :: rest).takeWhile fun character ↦ !(character == [dot])) = before := by
    have hall : ∀ character ∈ before, (!(character == [dot])) := by
      intro character hmem
      have hne : character ≠ [dot] := by
        rintro rfl
        exact hbefore hmem
      simpa using hne
    rw [takeWhile_append_of_pos hall, takeWhile_cons_of_neg (by simp), append_nil]
  have hdrop : (front ++ [dot] :: back).dropWhile (· == [space]) =
      front.dropWhile (· == [space]) ++ [dot] :: back := by
    rw [dropWhile_append, dropWhile_cons_of_neg (by decide)]
    split_ifs with hempty
    · rw [List.isEmpty_iff.mp hempty, nil_append]
    · rfl
  have hrest : [dot] ∉ front.dropWhile (· == [space]) :=
    fun hmem ↦ hfront ((dropWhile_sublist _).subset hmem)
  rw [labelOf, htext, trimBy, hdrop, rdropWhile_append_cons (by decide), hlabel _ _ hrest]
  exact congrArg (List.dropWhile _) (hlabel _ _ hfront).symm

theorem getLast?_flatten_eq_space_iff (hkept : ∀ character ∈ characters, Kept character) :
    characters.flatten.getLast? = some space ↔ characters.getLast? = some [space] := by
  rcases eq_nil_or_concat characters with rfl | ⟨front, character, rfl⟩
  · simp
  · have hlast : Kept character := hkept character (by simp)
    have hundivided : Undivided (· == space) (· == [space]) character := hlast.undivided (by decide)
    obtain ⟨hfilled, hsame⟩ := hundivided
    rw [concat_eq_append, flatten_append, flatten_singleton, List.getLast?_append,
      List.getLast?_eq_some_getLast hfilled, List.getLast?_append, List.getLast?_singleton]
    simp only [Option.some_or, Option.some.injEq]
    have hbyte := hsame _ (getLast_mem hfilled)
    dsimp only at hbyte
    rw [← beq_iff_eq, hbyte, beq_iff_eq]

theorem cleanName_label_iff (text : Bytes) : CleanName (labelOf text).flatten ↔ LabelFits text := by
  have hprefix : (labelOf text).flatten <+: sanitize text := by
    rw [sanitize_eq_flatten]
    exact List.IsPrefix.flatten ( takeWhile_prefix _)
  have hlength := hprefix.length_le.trans (length_sanitize_le text)
  have hhead : (labelOf text).flatten.head? ≠ some space := by
    intro hspace
    obtain ⟨tail, htail⟩ := List.head?_eq_some_iff.mp hspace
    obtain ⟨rest, hrest⟩ := hprefix
    refine head_sanitize text ?_
    rw [← hrest, htail]
    rfl
  rw [cleanName_flatten_iff (fun _ hmem ↦ kept_of_labelOf hmem) hlength, LabelFits, ne_eq, ne_eq,
    getLast?_flatten_eq_space_iff fun _ hmem ↦ kept_of_labelOf hmem]
  by_cases hdot : [dot] ∈ charsOf text
  · rw [labelOf_of_dot hdot] at hhead ⊢
    rw [getLast?_dropWhile_iff]
    constructor
    · rintro ⟨hseconds, -, hlast⟩
      refine ⟨fun character hmem ↦ ?_, fun _ hspace character hmem ↦ ?_⟩
      · rcases mem_dropWhile_or (p := (· == [space])) hmem with hinside | hblank
        · exact hseconds character hinside
        · rw [beq_iff_eq.mp hblank]
          rfl
      · by_contra hother
        exact hlast ⟨hspace, character, hmem, by simpa using hother⟩
    · rintro ⟨hseconds, hlast⟩
      refine ⟨fun character hmem ↦ hseconds character ((dropWhile_sublist _).subset hmem), hhead, ?_⟩
      rintro ⟨hspace, other, hmem, hother⟩
      rw [hlast hdot hspace other hmem] at hother
      simp at hother
  · have hlast := last_sanitize text
    rw [sanitize_eq_flatten, ← labelOf_of_no_dot hdot, ne_eq,
      getLast?_flatten_eq_space_iff fun _ hmem ↦ kept_of_labelOf hmem] at hlast
    have hlabel : (charsOf text).takeWhile (· != [dot]) = charsOf text :=
      takeWhile_eq_self_iff.mpr fun character hmem ↦ bne_iff_ne.mpr fun hsame ↦ hdot (hsame ▸ hmem)
    rw [hlabel]
    constructor
    · rintro ⟨hseconds, -⟩
      refine ⟨fun character hmem ↦ ?_, fun hmem ↦ absurd hmem hdot⟩
      rw [labelOf_of_no_dot hdot] at hseconds
      rcases mem_trimBy_or (p := (· == [space])) hmem with hinside | hblank
      · exact hseconds character hinside
      · rw [beq_iff_eq.mp hblank]
        rfl
    · rintro ⟨hseconds, -⟩
      exact ⟨fun character hmem ↦ hseconds character (mem_charsOf_of_labelOf hmem), hhead, hlast⟩

theorem hostNameOption_eq (options : Buffer) (len : Nat) :
    hostNameOption options len = sanitize (hostText options len) := by
  unfold hostNameOption hostText
  cases findOption options len kOptHostName with
  | none => rfl
  | some value =>
    dsimp only
    split_ifs with hempty
    · rw [hempty]
      rfl
    · rfl

theorem sanitize_eq_nil_iff (text : Bytes) :
    sanitize text = [] ↔ ∀ character ∈ charsOf text, character = [space] := by
  rw [sanitize_eq_flatten, flatten_eq_nil_iff]
  constructor
  · intro hempty character hmem
    rcases mem_trimBy_or (p := (· == [space])) hmem with hinside | hblank
    · obtain ⟨lead, tail, hcharacter, -⟩ := exists_lead (kept_of_charsOf hmem).1
      exact absurd (hempty character hinside) (hcharacter ▸ cons_ne_nil lead tail)
    · exact beq_iff_eq.mp hblank
  · intro hblank character hmem
    have hnothing : (charsOf text).dropWhile (· == [space]) = [] :=
      dropWhile_eq_nil_iff.mpr fun other hother ↦ beq_iff_eq.mpr (hblank other hother)
    rw [trimBy, hnothing] at hmem
    cases hmem

theorem cleanName_fromOptions_iff (options : Buffer) (len : Nat) :
    CleanName (fromOptions options len) ↔ OptionsFit options len := by
  have hempty : (sanitize (hostText options len)).isEmpty = true ↔
      ¬∃ character ∈ charsOf (hostText options len), character ≠ [space] := by
    rw [List.isEmpty_iff, sanitize_eq_nil_iff]
    simp
  unfold fromOptions OptionsFit
  rw [hostNameOption_eq]
  by_cases hhost : ∃ character ∈ charsOf (hostText options len), character ≠ [space]
  · rw [if_pos hhost, if_neg fun hnothing ↦ hempty.mp hnothing hhost]
    exact cleanName_sanitize_iff _
  · rw [if_neg hhost, if_pos (hempty.mpr hhost), shortLabel_eq]
    exact cleanName_label_iff _

/-- When a sanitized text and the name of a datagram are clean. -/
theorem client_names_clean_iff (text : Bytes) (options : Buffer) (len : Nat) :
    (CleanName (sanitize text) ↔ SecondsFit text) ∧
      (CleanName (fromOptions options len) ↔ OptionsFit options len) :=
  ⟨cleanName_sanitize_iff text, cleanName_fromOptions_iff options len⟩

def optionField (bytes : Bytes) : Buffer := fun i ↦ bytes.getD i 0

/-- An overlong form is kept, and the name "pc1 .lan" of option 81 comes out with a blank behind it. -/
theorem client_names_not_clean :
    (sanitize [0xE0, 0x80, 0x80] = [0xE0, 0x80, 0x80] ∧ ¬CleanName (sanitize [0xE0, 0x80, 0x80])) ∧
      fromOptions (optionField ([81, 11, 0, 0, 0] ++ ascii "pc1 .lan")) 13 = ascii "pc1 " ∧
      ¬CleanName (fromOptions (optionField ([81, 11, 0, 0, 0] ++ ascii "pc1 .lan")) 13) := by
  have hname : fromOptions (optionField ([81, 11, 0, 0, 0] ++ ascii "pc1 .lan")) 13 = ascii "pc1 " := by
    decide +kernel
  refine ⟨⟨by decide, fun hclean ↦ ?_⟩, hname, fun hclean ↦ ?_⟩
  · have hfits := (cleanName_sanitize_iff _).mp hclean [0xE0, 0x80, 0x80] (by decide)
    exact absurd hfits (by decide)
  · rw [hname] at hclean
    exact hclean.last (by decide)

end DhcpServer.Dhcp.ClientName
