import DhcpServer.Library.Numerals
import DhcpServer.Library.Occurrences

/-!
# Texts of addresses

The textual forms of IPv4 and IPv6 addresses: what a text stands for, and the one text that is
recommended for an IPv6 address, in which the first of the longest runs of zero groups is left out.
-/

/-!
## The longest run of marks

A scan over a row of places, some of them marked, that remembers the longest run of marks met so far,
the first of those that are equally long. It has to be told once more behind the last place that nothing
is marked there, so that a run at the end is counted too.
-/

namespace DhcpServer.Library

/-- What the scan has met: the best run, and where the run began that it is in. -/
structure RunScan where
  bestStart : Option Nat := none
  bestLen : Nat := 0
  runStart : Option Nat := none

def RunScan.step (scan : RunScan) (place : Nat) (marked : Bool) : RunScan :=
  if marked then { scan with runStart := some (scan.runStart.getD place) }
  else
    match scan.runStart with
    | none => scan
    | some start =>
      if scan.bestLen < place - start then ⟨some start, place - start, none⟩
      else { scan with runStart := none }

def runScan (marked : Nat → Bool) : Nat → RunScan
  | 0 => {}
  | count + 1 => (runScan marked count).step count (marked count)

def IsRun (marked : Nat → Bool) (start len : Nat) : Prop :=
  ∀ place, start ≤ place → place < start + len → marked place = true

/-- No run below a count is longer, and none as long stands further in front. -/
structure LongestBelow (marked : Nat → Bool) (count : Nat) (bestStart : Option Nat) (bestLen : Nat) :
    Prop where
  none_zero : bestStart = none → bestLen = 0
  run : ∀ start, bestStart = some start → 0 < bestLen ∧ start + bestLen ≤ count ∧ IsRun marked start bestLen
  longest : ∀ start len, start + len ≤ count → IsRun marked start len → len ≤ bestLen
  first : ∀ start, 0 < bestLen → start + bestLen ≤ count → IsRun marked start bestLen →
    ∀ best, bestStart = some best → best ≤ start

variable {marked : Nat → Bool} {count start len : Nat} {scan : RunScan}

/-- The run that the scan is in goes up to the count and cannot begin earlier. -/
structure InRun (marked : Nat → Bool) (count start : Nat) : Prop where
  lt : start < count
  run : ∀ place, start ≤ place → place < count → marked place = true
  before : 0 < start → marked (start - 1) = false

/-- What the scan knows when it has seen the places below a count. -/
def Scanned (marked : Nat → Bool) (count : Nat) (scan : RunScan) : Prop :=
  match scan.runStart with
  | none => (0 < count → marked (count - 1) = false) ∧ LongestBelow marked count scan.bestStart scan.bestLen
  | some start => InRun marked count start ∧ LongestBelow marked start scan.bestStart scan.bestLen

theorem IsRun.le_of_unmarked (hrun : IsRun marked start len) (hunmarked : marked count = false)
    (hstart : start ≤ count) : start + len ≤ count := by
  by_contra hlonger
  have hmarked := hrun count hstart (by omega)
  rw [hunmarked] at hmarked
  cases hmarked

theorem LongestBelow.succ {bestStart : Option Nat} {bestLen : Nat}
    (hbest : LongestBelow marked count bestStart bestLen) (hunmarked : marked count = false) :
    LongestBelow marked (count + 1) bestStart bestLen := by
  have hbelow : ∀ start len, 0 < len → start + len ≤ count + 1 → IsRun marked start len →
      start + len ≤ count := by
    intro start len hlen hend hrun
    exact hrun.le_of_unmarked hunmarked (by omega)
  refine ⟨hbest.none_zero, fun start hstart ↦ ?_, fun start len hend hrun ↦ ?_,
    fun start hlen hend hrun ↦ hbest.first start hlen (hbelow start bestLen hlen hend hrun) hrun⟩
  · obtain ⟨hlen, hend, hrun⟩ := hbest.run start hstart
    exact ⟨hlen, by omega, hrun⟩
  · by_cases hlen : 0 < len
    · exact hbest.longest start len (hbelow start len hlen hend hrun) hrun
    · omega

theorem InRun.split (hopen : InRun marked count start) {other : Nat} (hrun : IsRun marked other len) :
    other + len ≤ start ∨ start ≤ other := by
  by_contra hacross
  have hmarked := hrun (start - 1) (by omega) (by omega)
  rw [hopen.before (by omega)] at hmarked
  cases hmarked

theorem InRun.close (hopen : InRun marked count start) {bestStart : Option Nat} {bestLen : Nat}
    (hbest : LongestBelow marked start bestStart bestLen) :
    if bestLen < count - start then LongestBelow marked count (some start) (count - start)
    else LongestBelow marked count bestStart bestLen := by
  have hlt := hopen.lt
  split_ifs with hlonger
  · refine ⟨fun hnone ↦ (by cases hnone), fun begun hbegun ↦ ?_, fun other len hend hrun ↦ ?_,
      fun other hlen hend hrun best hbestStart ↦ ?_⟩
    · cases hbegun
      exact ⟨by omega, by omega, fun place hle hplace ↦ hopen.run place hle (by omega)⟩
    · rcases hopen.split hrun with hbelow | hinside
      · have hle := hbest.longest other len hbelow hrun
        omega
      · omega
    · cases hbestStart
      rcases hopen.split hrun with hbelow | hinside
      · have hle := hbest.longest other _ hbelow hrun
        omega
      · exact hinside
  · refine ⟨hbest.none_zero, fun begun hbegun ↦ ?_, fun other len hend hrun ↦ ?_,
      fun other hlen hend hrun best hbestStart ↦ ?_⟩
    · obtain ⟨hlen, hend, hrun⟩ := hbest.run begun hbegun
      exact ⟨hlen, by omega, hrun⟩
    · rcases hopen.split hrun with hbelow | hinside
      · exact hbest.longest other len hbelow hrun
      · omega
    · rcases hopen.split hrun with hbelow | hinside
      · exact hbest.first other hlen hbelow hrun best hbestStart
      · have hlast := (hbest.run best hbestStart).2.1
        omega

theorem Scanned.step (hscan : Scanned marked count scan) :
    Scanned marked (count + 1) (scan.step count (marked count)) := by
  obtain ⟨bestStart, bestLen, runStart⟩ := scan
  cases hmarked : marked count with
  | true =>
    cases runStart with
    | none =>
      obtain ⟨hbefore, hbest⟩ := hscan
      refine ⟨⟨Nat.lt_succ_self count, fun place hle hplace ↦ ?_, hbefore⟩, hbest⟩
      obtain rfl := Nat.le_antisymm (Nat.le_of_lt_succ hplace) hle
      exact hmarked
    | some start =>
      obtain ⟨hopen, hbest⟩ := hscan
      refine ⟨⟨Nat.lt_succ_of_lt hopen.lt, fun place hle hplace ↦ ?_, hopen.before⟩, hbest⟩
      rcases Nat.lt_succ_iff_lt_or_eq.mp hplace with hlt | rfl
      · exact hopen.run place hle hlt
      · exact hmarked
  | false =>
    cases runStart with
    | none => exact ⟨fun _ ↦ hmarked, hscan.2.succ hmarked⟩
    | some start =>
      obtain ⟨hopen, hbest⟩ := hscan
      have hclosed := hopen.close hbest
      simp only [RunScan.step, Bool.false_eq_true, if_false]
      split_ifs at hclosed ⊢ with hlonger
      · exact ⟨fun _ ↦ hmarked, hclosed.succ hmarked⟩
      · exact ⟨fun _ ↦ hmarked, hclosed.succ hmarked⟩

theorem scanned_runScan (marked : Nat → Bool) (count : Nat) :
    Scanned marked count (runScan marked count) := by
  induction count with
  | zero =>
    refine ⟨fun hpos ↦ absurd hpos (Nat.lt_irrefl 0), fun _ ↦ rfl, fun start hstart ↦ ?_,
      fun start len hend hrun ↦ ?_, fun start hlen hend hrun ↦ ?_⟩
    · cases hstart
    · exact Nat.le_trans (Nat.le_add_left len start) hend
    · exact absurd hlen (Nat.lt_irrefl 0)
  | succ count ih => exact ih.step

theorem LongestBelow.of_succ {bestStart : Option Nat} {bestLen : Nat}
    (hbest : LongestBelow marked (count + 1) bestStart bestLen) (hunmarked : marked count = false) :
    LongestBelow marked count bestStart bestLen := by
  refine ⟨hbest.none_zero, fun start hstart ↦ ?_, fun start len hend hrun ↦ ?_,
    fun start hlen hend hrun ↦ hbest.first start hlen (Nat.le_succ_of_le hend) hrun⟩
  · obtain ⟨hlen, hend, hrun⟩ := hbest.run start hstart
    exact ⟨hlen, hrun.le_of_unmarked hunmarked (by omega), hrun⟩
  · exact hbest.longest start len (Nat.le_succ_of_le hend) hrun

/-- The scan that was told of no mark behind the last place has found the first of the longest runs. -/
theorem longestBelow_runScan (hunmarked : marked count = false) :
    LongestBelow marked count (runScan marked (count + 1)).bestStart
      (runScan marked (count + 1)).bestLen := by
  have hscan := scanned_runScan marked (count + 1)
  unfold Scanned at hscan
  split at hscan
  · exact hscan.2.of_succ hunmarked
  · rename_i start hstart
    have hmarked := hscan.1.run count (Nat.le_of_lt_succ hscan.1.lt) (Nat.lt_succ_self count)
    rw [hunmarked] at hmarked
    cases hmarked

end DhcpServer.Library

namespace DhcpServer.Library.AddressText

def dot : UInt8 := 0x2E
def colon : UInt8 := 0x3A

def gap : Bytes := [colon, colon]

/-! ## Reading -/

/-- A number below 256 without leading zeros. -/
def readOctet (text : Bytes) : Option UInt8 :=
  match readNumeral 10 text with
  | some number => if number < 256 ∧ text = numeral 10 number then some (UInt8.ofNat number) else none
  | none => none

def readIp4 (text : Bytes) : Option (List UInt8) := do
  let octets ← (text.splitOn dot).mapM readOctet
  if octets.length = 4 then some octets else none

def readGroup (text : Bytes) : Option UInt16 :=
  if text.length ≤ 4 then (readNumeral 16 text).map UInt16.ofNat else none

def pairUp (high low : UInt8) : UInt16 := high.toUInt16 <<< 8 ||| low.toUInt16

/-- The last group, or the last two of them written as an IPv4 address. -/
def readLast (text : Bytes) : Option (List UInt16) :=
  match readGroup text with
  | some group => some [group]
  | none =>
    match readIp4 text with
    | some [first, second, third, fourth] => some [pairUp first second, pairUp third fourth]
    | _ => none

def readGroups : List Bytes → Option (List UInt16)
  | [] => some []
  | [last] => readLast last
  | piece :: pieces => do
    let group ← readGroup piece
    let groups ← readGroups pieces
    some (group :: groups)

def readFront (text : Bytes) : Option (List UInt16) :=
  if text = [] then some [] else (text.splitOn colon).mapM readGroup

def readBack (text : Bytes) : Option (List UInt16) :=
  if text = [] then some [] else readGroups (text.splitOn colon)

/-- The eight groups of an IPv6 address; a gap stands for one or more of them. -/
def readIp6 (text : Bytes) : Option (List UInt16) :=
  match cutAt gap text with
  | none => do
    let groups ← readGroups (text.splitOn colon)
    if groups.length = 8 then some groups else none
  | some (before, behind) => do
    let front ← readFront before
    let back ← readBack behind
    if front.length + back.length < 8 then
      some (front ++ List.replicate (8 - (front.length + back.length)) 0 ++ back)
    else none

def hexGroup (group : UInt16) : Bytes := numeral 16 group.toNat

def hexGroups (groups : List UInt16) : Bytes := [colon].intercalate (groups.map hexGroup)

def gappedText (groups : List UInt16) (start len : Nat) : Bytes :=
  hexGroups (groups.take start) ++ gap ++ hexGroups (groups.drop (start + len))

def shortenedText (groups : List UInt16) (start : Option Nat) (len : Nat) : Bytes :=
  match start with
  | some start => if 2 ≤ len then gappedText groups start len else hexGroups groups
  | none => hexGroups groups

def isZero (groups : List UInt16) (place : Nat) : Bool := groups[place]? == some 0

structure Tidy (text : Bytes) : Prop where
  lower : ∀ byte ∈ text, IsLowerDigit byte ∨ byte = colon
  no_leading_zero : ∀ piece ∈ text.splitOn colon, piece.head? = some 0x30 → piece = [0x30]
  one_gap : occurrences gap text ≤ 1

/-- The text is in the recommended form: its gap stands for the first of the longest runs of two or more
zero groups. -/
structure Recommended (groups : List UInt16) (text : Bytes) : Prop extends Tidy text where
  shortened : ∃ start len, LongestBelow (isZero groups) groups.length start len ∧
    text = shortenedText groups start len

/-! ## Groups between colons -/

variable {groups front back : List UInt16} {group : UInt16} {text piece : Bytes} {start len : Nat}

theorem colon_notMem_hexGroup (group : UInt16) : colon ∉ hexGroup group := by
  intro hmem
  have hdigit := isLowerDigit_of_mem_numeral (by decide) (by decide) hmem
  revert hdigit
  decide

theorem hexGroup_ne_nil (group : UInt16) : hexGroup group ≠ [] := numeral_ne_nil 16 _

theorem hexGroups_cons_cons (group next : UInt16) (groups : List UInt16) :
    hexGroups (group :: next :: groups) = hexGroup group ++ colon :: hexGroups (next :: groups) := by
  rw [hexGroups, List.map_cons, List.map_cons, List.intercalate_cons_cons, List.append_assoc]
  rfl

theorem hexGroups_singleton (group : UInt16) : hexGroups [group] = hexGroup group :=
  List.intercalate_singleton

theorem exists_hexGroups_cons (group : UInt16) (groups : List UInt16) :
    ∃ first rest, hexGroups (group :: groups) = first :: rest ∧ first ≠ colon := by
  obtain ⟨first, rest, hcons⟩ := List.exists_cons_of_ne_nil (hexGroup_ne_nil group)
  have hfirst : first ≠ colon := by
    rintro rfl
    exact colon_notMem_hexGroup group (hcons ▸ List.mem_cons_self)
  cases groups with
  | nil => exact ⟨first, rest, by rw [hexGroups_singleton, hcons], hfirst⟩
  | cons next groups =>
    refine ⟨first, rest ++ colon :: hexGroups (next :: groups), ?_, hfirst⟩
    rw [hexGroups_cons_cons, hcons, List.cons_append]

theorem hexGroups_eq_nil_iff : hexGroups groups = [] ↔ groups = [] := by
  cases groups with
  | nil => exact iff_of_true rfl rfl
  | cons group groups =>
    obtain ⟨first, rest, hcons, -⟩ := exists_hexGroups_cons group groups
    simp [hcons]

theorem not_gap_at_colon (group : UInt16) (groups : List UInt16) (text : Bytes) :
    ¬gap <+: colon :: (hexGroups (group :: groups) ++ text) := by
  obtain ⟨first, rest, hcons, hfirst⟩ := exists_hexGroups_cons group groups
  rw [hcons]
  intro hprefix
  exact hfirst (List.cons_prefix_cons.mp (List.cons_prefix_cons.mp hprefix).2).1.symm

theorem cutAt_hexGroups_append (groups : List UInt16) (text : Bytes) :
    cutAt gap (hexGroups groups ++ text) =
      (cutAt gap text).map fun cut ↦ (hexGroups groups ++ cut.1, cut.2) := by
  induction groups with
  | nil => simp [hexGroups]
  | cons group groups ih =>
    cases groups with
    | nil =>
      rw [hexGroups_singleton]
      exact cutAt_append_of_notMem (colon_notMem_hexGroup group) text
    | cons next groups =>
      rw [hexGroups_cons_cons, List.append_assoc, List.cons_append, gap,
        cutAt_append_of_notMem (colon_notMem_hexGroup group)]
      rw [← gap, cutAt_cons_of_not_here (not_gap_at_colon next groups text), ih, Option.map_map,
        Option.map_map]
      simp [Function.comp_def]

theorem occurrences_hexGroups_append (groups : List UInt16) (text : Bytes) :
    occurrences gap (hexGroups groups ++ text) = occurrences gap text := by
  induction groups with
  | nil => rfl
  | cons group groups ih =>
    cases groups with
    | nil =>
      rw [hexGroups_singleton]
      exact occurrences_append_of_notMem (colon_notMem_hexGroup group) text
    | cons next groups =>
      rw [hexGroups_cons_cons, List.append_assoc, List.cons_append, gap,
        occurrences_append_of_notMem (colon_notMem_hexGroup group)]
      rw [← gap, occurrences_cons_of_not_here (not_gap_at_colon next groups text), ih]

theorem cutAt_hexGroups (groups : List UInt16) : cutAt gap (hexGroups groups) = none := by
  have hcut := cutAt_hexGroups_append groups []
  rwa [List.append_nil] at hcut

theorem cutAt_gapped (front back : List UInt16) :
    cutAt gap (hexGroups front ++ gap ++ hexGroups back) = some (hexGroups front, hexGroups back) := by
  have hhere : cutAt gap (gap ++ hexGroups back) = some ([], hexGroups back) :=
    if_pos (List.prefix_append gap (hexGroups back))
  rw [List.append_assoc, cutAt_hexGroups_append, hhere, Option.map_some, List.append_nil]

theorem occurrences_gapped (front back : List UInt16) :
    occurrences gap (hexGroups front ++ gap ++ hexGroups back) = 1 := by
  have hbehind : occurrences gap (colon :: hexGroups back) = 0 := by
    cases back with
    | nil => decide
    | cons group back =>
      have hnone := not_gap_at_colon group back []
      have hgroups := occurrences_hexGroups_append (group :: back) []
      rw [List.append_nil] at hnone hgroups
      rw [occurrences_cons_of_not_here hnone, hgroups]
      rfl
  have hhere : gap <+: colon :: colon :: hexGroups back := List.prefix_append gap (hexGroups back)
  rw [List.append_assoc, occurrences_hexGroups_append]
  change occurrences gap (colon :: colon :: hexGroups back) = 1
  rw [occurrences, if_pos hhere, hbehind]

/-! ## What is written is read back -/

theorem readGroup_hexGroup (group : UInt16) : readGroup (hexGroup group) = some group := by
  have hlength : (hexGroup group).length ≤ 4 := length_numeral_le (by decide) (by decide) group.toNat_lt
  rw [readGroup, if_pos hlength, hexGroup, readNumeral_numeral (by decide) (by decide), Option.map_some,
    UInt16.ofNat_toNat]

theorem splitOn_hexGroups (hgroups : groups ≠ []) :
    (hexGroups groups).splitOn colon = groups.map hexGroup := by
  refine List.splitOn_intercalate colon (fun piece hpiece ↦ ?_) (by simpa using hgroups)
  obtain ⟨group, -, rfl⟩ := List.mem_map.mp hpiece
  exact colon_notMem_hexGroup group

theorem readGroups_map_hexGroup (groups : List UInt16) :
    readGroups (groups.map hexGroup) = some groups := by
  induction groups with
  | nil => rfl
  | cons group groups ih =>
    cases groups with
    | nil =>
      change readLast (hexGroup group) = some [group]
      rw [readLast, readGroup_hexGroup]
    | cons next groups =>
      change (readGroup (hexGroup group)).bind (fun first ↦
        (readGroups ((next :: groups).map hexGroup)).bind fun others ↦ some (first :: others)) = _
      rw [readGroup_hexGroup, ih]
      rfl

theorem mapM_readGroup_hexGroup (groups : List UInt16) :
    (groups.map hexGroup).mapM readGroup = some groups := by
  induction groups with
  | nil => rfl
  | cons group groups ih =>
    rw [List.map_cons, List.mapM_cons, readGroup_hexGroup, ih]
    rfl

theorem readFront_hexGroups (front : List UInt16) : readFront (hexGroups front) = some front := by
  unfold readFront
  split_ifs with hnil
  · rw [hexGroups_eq_nil_iff.mp hnil]
  · rw [splitOn_hexGroups fun hfront ↦ hnil (hexGroups_eq_nil_iff.mpr hfront), mapM_readGroup_hexGroup]

theorem readBack_hexGroups (back : List UInt16) : readBack (hexGroups back) = some back := by
  unfold readBack
  split_ifs with hnil
  · rw [hexGroups_eq_nil_iff.mp hnil]
  · rw [splitOn_hexGroups fun hback ↦ hnil (hexGroups_eq_nil_iff.mpr hback), readGroups_map_hexGroup]

theorem readIp6_hexGroups (hlength : groups.length = 8) : readIp6 (hexGroups groups) = some groups := by
  have hgroups : groups ≠ [] := by
    rintro rfl
    cases hlength
  unfold readIp6
  rw [cutAt_hexGroups]
  rw [splitOn_hexGroups hgroups, readGroups_map_hexGroup, Option.bind_eq_bind, Option.bind_some,
    if_pos hlength]

theorem readIp6_gapped (hlen : 0 < len) (hlength : front.length + len + back.length = 8) :
    readIp6 (hexGroups front ++ gap ++ hexGroups back) =
      some (front ++ List.replicate len 0 ++ back) := by
  have hroom : front.length + back.length < 8 := by omega
  have hzeros : 8 - (front.length + back.length) = len := by omega
  unfold readIp6
  rw [cutAt_gapped]
  dsimp only
  rw [readFront_hexGroups, readBack_hexGroups, Option.bind_eq_bind, Option.bind_some, Option.bind_some,
    if_pos hroom, hzeros]

theorem eq_take_replicate_drop (hrun : IsRun (isZero groups) start len) (hend : start + len ≤ groups.length) :
    groups = groups.take start ++ List.replicate len 0 ++ groups.drop (start + len) := by
  have hmiddle : (groups.drop start).take len = List.replicate len 0 := by
    refine List.eq_replicate_iff.mpr ⟨by simp; omega, fun group hgroup ↦ ?_⟩
    obtain ⟨place, hplace, rfl⟩ := List.mem_iff_getElem.mp hgroup
    rw [List.length_take] at hplace
    have hzero := hrun (start + place) (Nat.le_add_right _ _) (by omega)
    rw [isZero, beq_iff_eq, List.getElem?_eq_some_iff] at hzero
    obtain ⟨hinside, hzero⟩ := hzero
    rw [List.getElem_take, List.getElem_drop]
    exact hzero
  rw [← hmiddle, List.append_assoc, ← List.drop_drop, List.take_append_drop, List.take_append_drop]

variable {bestStart : Option Nat} {bestLen : Nat}

theorem readIp6_shortened (hlength : groups.length = 8)
    (hbest : LongestBelow (isZero groups) groups.length bestStart bestLen) :
    readIp6 (shortenedText groups bestStart bestLen) = some groups := by
  cases bestStart with
  | none => exact readIp6_hexGroups hlength
  | some start =>
    rw [shortenedText]
    split_ifs with hgap
    · obtain ⟨-, hend, hrun⟩ := hbest.run start rfl
      have hgroups := eq_take_replicate_drop hrun hend
      have hsize : (groups.take start).length + bestLen + (groups.drop (start + bestLen)).length = 8 := by
        rw [List.length_take, List.length_drop]
        omega
      rw [gappedText, readIp6_gapped (by omega) hsize, ← hgroups]
    · exact readIp6_hexGroups hlength

theorem lower_hexGroups (groups : List UInt16) :
    ∀ byte ∈ hexGroups groups, IsLowerDigit byte ∨ byte = colon := by
  induction groups with
  | nil => simp [hexGroups]
  | cons group groups ih =>
    have hgroup : ∀ byte ∈ hexGroup group, IsLowerDigit byte ∨ byte = colon :=
      fun byte hbyte ↦ .inl (isLowerDigit_of_mem_numeral (by decide) (by decide) hbyte)
    cases groups with
    | nil => rwa [hexGroups_singleton]
    | cons next groups =>
      rw [hexGroups_cons_cons]
      exact List.forall_mem_append.mpr ⟨hgroup, List.forall_mem_cons.mpr ⟨.inr rfl, ih⟩⟩

theorem no_leading_zero_hexGroups (groups : List UInt16) :
    ∀ piece ∈ (hexGroups groups).splitOn colon, piece.head? = some 0x30 → piece = [0x30] := by
  intro piece hpiece hzero
  by_cases hgroups : groups = []
  · subst hgroups
    have hempty : piece = [] := List.mem_singleton.mp hpiece
    rw [hempty] at hzero
    cases hzero
  · rw [splitOn_hexGroups hgroups] at hpiece
    obtain ⟨group, -, rfl⟩ := List.mem_map.mp hpiece
    have hnone := numeral_of_leading_zero (by decide) (by decide) hzero
    rw [hexGroup, hnone]
    rfl

theorem tidy_hexGroups (groups : List UInt16) : Tidy (hexGroups groups) := by
  have hnone := occurrences_hexGroups_append groups []
  rw [List.append_nil] at hnone
  refine ⟨lower_hexGroups groups, no_leading_zero_hexGroups groups, ?_⟩
  rw [hnone]
  exact Nat.zero_le 1

theorem tidy_gapped (front back : List UInt16) : Tidy (hexGroups front ++ gap ++ hexGroups back) := by
  have htext : hexGroups front ++ gap ++ hexGroups back =
      hexGroups front ++ colon :: ([] ++ colon :: hexGroups back) := by
    rw [List.append_assoc]
    rfl
  refine ⟨?_, ?_, (occurrences_gapped front back).le⟩
  · rw [htext]
    exact List.forall_mem_append.mpr ⟨lower_hexGroups front,
      List.forall_mem_cons.mpr ⟨.inr rfl, List.forall_mem_cons.mpr ⟨.inr rfl, lower_hexGroups back⟩⟩⟩
  · -- the piece between the two colons is empty, as that of a text without groups
    rw [htext, List.splitOn_append_cons_self, List.splitOn_append_cons_self]
    exact List.forall_mem_append.mpr ⟨no_leading_zero_hexGroups front,
      List.forall_mem_append.mpr ⟨no_leading_zero_hexGroups [], no_leading_zero_hexGroups back⟩⟩

theorem recommended_shortened (hbest : LongestBelow (isZero groups) groups.length bestStart bestLen) :
    Recommended groups (shortenedText groups bestStart bestLen) := by
  refine ⟨?_, bestStart, bestLen, hbest, rfl⟩
  cases bestStart with
  | none => exact tidy_hexGroups groups
  | some start =>
    rw [shortenedText]
    split_ifs with hgap
    · exact tidy_gapped _ _
    · exact tidy_hexGroups groups

end DhcpServer.Library.AddressText
