import DhcpServer.Library.AddressText
import DhcpServer.Library.Segments

/-!
# The text of an IP address

`core/IpText.h`. The bytes are read in wire order. The text of an IPv6 address is the recommended one,
and it is read back as the address it was made of.
-/

namespace DhcpServer.Core.IpText

open Library AddressText List Option

/-- `snprintf` into a buffer of so many bytes. -/
def snprintf (size : Nat) (text : Bytes) : Bytes := text.take (size - 1)

def ip4HostOrder (bytes : Buffer) : UInt32 :=
  (bytes 0).toUInt32 <<< 24 ||| (bytes 1).toUInt32 <<< 16 ||| (bytes 2).toUInt32 <<< 8 |||
    (bytes 3).toUInt32

/-- `"%u"` -/
def decimal (byte : UInt8) : Bytes := numeral 10 byte.toNat

def ip4Text (bytes : Buffer) : Bytes :=
  snprintf 16 ([dot].intercalate [decimal (bytes 0), decimal (bytes 1), decimal (bytes 2), decimal (bytes 3)])

def groupsOf (bytes : Buffer) : List UInt16 :=
  (List.range 8).map fun i ↦ pairUp (bytes (2 * i)) (bytes (2 * i + 1))

/-- The colon before a group is skipped when the group before it ended the compression. -/
def appendGroup (out : Bytes) (group : UInt16) : Bytes :=
  (if out ≠ [] ∧ out.getLast? ≠ some colon then out ++ [colon] else out) ++ snprintf 8 (hexGroup group)

/-- The second loop of `ip6Text`; `skip` groups are left out before the next one is looked at. -/
def writeGroups (bestStart : Option Nat) (bestLen : Nat) : Nat → Nat → List UInt16 → Bytes → Bytes
  | _, _, [], out => out
  | i, skip + 1, _ :: groups, out => writeGroups bestStart bestLen (i + 1) skip groups out
  | i, 0, group :: groups, out =>
    if bestStart = some i then writeGroups bestStart bestLen (i + 1) (bestLen - 1) groups (out ++ gap)
    else writeGroups bestStart bestLen (i + 1) 0 groups (appendGroup out group)

def ip6Text (bytes : Buffer) : Bytes :=
  let groups := groupsOf bytes
  let scan := runScan (isZero groups) 9
  -- one zero group is a zero, not a gap
  let bestStart := if scan.bestLen < 2 then none else scan.bestStart
  writeGroups bestStart scan.bestLen 0 0 groups []

variable {bytes : Buffer} {groups front back : List UInt16} {bestStart : Option Nat}
  {bestLen start i : Nat} {out : Bytes}

theorem length_decimal_le (byte : UInt8) : (decimal byte).length ≤ 3 :=
  length_numeral_le (by decide) (by decide) (Nat.lt_of_lt_of_le byte.toNat_lt (by decide))

theorem ip4Text_eq (bytes : Buffer) :
    ip4Text bytes = [dot].intercalate ((slice bytes 0 4).map decimal) := by
  have hzero := length_decimal_le (bytes 0)
  have hone := length_decimal_le (bytes 1)
  have htwo := length_decimal_le (bytes 2)
  have hthree := length_decimal_le (bytes 3)
  refine take_of_length_le ?_
  simp only [intercalate_cons_cons, intercalate_singleton, length_append, length_singleton]
  omega

theorem dot_notMem_decimal (byte : UInt8) : dot ∉ decimal byte := by
  intro hmem
  have hdigit := isLowerDigit_of_mem_numeral (by decide) (by decide) hmem
  revert hdigit
  decide

theorem readOctet_decimal (byte : UInt8) : readOctet (decimal byte) = some byte := by
  rw [readOctet, decimal, readNumeral_numeral (by decide) (by decide)]
  dsimp only
  rw [if_pos ⟨byte.toNat_lt, rfl⟩, UInt8.ofNat_toNat]

theorem mapM_readOctet_decimal (octets : List UInt8) :
    (octets.map decimal).mapM readOctet = some octets := by
  induction octets with
  | nil => rfl
  | cons octet octets ih =>
    rw [map_cons, mapM_cons, readOctet_decimal, ih]
    rfl

theorem readIp4_ip4Text (bytes : Buffer) : readIp4 (ip4Text bytes) = some (slice bytes 0 4) := by
  have hlength : (slice bytes 0 4).length = 4 := length_slice
  have hpieces : ([dot].intercalate ((slice bytes 0 4).map decimal)).splitOn dot =
      (slice bytes 0 4).map decimal := by
    refine splitOn_intercalate dot (fun piece hpiece ↦ ?_) (cons_ne_nil _ _)
    obtain ⟨octet, -, rfl⟩ := List.mem_map.mp hpiece
    exact dot_notMem_decimal octet
  rw [readIp4, ip4Text_eq, hpieces, mapM_readOctet_decimal, bind_eq_bind, bind_some, if_pos hlength]

/-- The octets of an address in host order, the highest first. -/
def hostOctets (address : UInt32) : List UInt8 :=
  [(address >>> 24).toUInt8, (address >>> 16).toUInt8, (address >>> 8).toUInt8, address.toUInt8]

theorem hostOctets_ip4HostOrder (bytes : Buffer) : hostOctets (ip4HostOrder bytes) = slice bytes 0 4 := by
  have hzero := (bytes 0).toNat_lt
  have hone := (bytes 1).toNat_lt
  have htwo := (bytes 2).toNat_lt
  have hthree := (bytes 3).toNat_lt
  have hvalue : (ip4HostOrder bytes).toNat = (bytes 3).toNat + (bytes 2).toNat * 256 +
      (bytes 1).toNat * 65536 + (bytes 0).toNat * 16777216 := by
    rw [ip4HostOrder, or_reverse, toNat_or_bytes]
  have hoctet (place : UInt32) (octet : UInt8)
      (hplace : (ip4HostOrder bytes).toNat / 2 ^ (place.toNat % 32) % 256 = octet.toNat) :
      (ip4HostOrder bytes >>> place).toUInt8 = octet := by
    apply UInt8.toNat_inj.mp
    rwa [UInt32.toNat_toUInt8, UInt32.toNat_shiftRight, Nat.shiftRight_eq_div_pow]
  have hlow : (ip4HostOrder bytes).toUInt8 = bytes 3 := by
    apply UInt8.toNat_inj.mp
    rw [UInt32.toNat_toUInt8, hvalue]
    omega
  have hslice : slice bytes 0 4 = [bytes 0, bytes 1, bytes 2, bytes 3] := rfl
  have hhigh : (ip4HostOrder bytes >>> 24).toUInt8 = bytes 0 := by
    apply hoctet
    change _ / 16777216 % 256 = _
    omega
  have hsecond : (ip4HostOrder bytes >>> 16).toUInt8 = bytes 1 := by
    apply hoctet
    change _ / 65536 % 256 = _
    omega
  have hthird : (ip4HostOrder bytes >>> 8).toUInt8 = bytes 2 := by
    apply hoctet
    change _ / 256 % 256 = _
    omega
  rw [hostOctets, hslice, hlow, hhigh, hsecond, hthird]

theorem snprintf_hexGroup (group : UInt16) : snprintf 8 (hexGroup group) = hexGroup group := by
  have hlength : (hexGroup group).length ≤ 4 := length_numeral_le (by decide) (by decide) group.toNat_lt
  exact take_of_length_le (Nat.le_trans hlength (by decide))

theorem hexGroups_cons (group : UInt16) (groups : List UInt16) :
    hexGroups (group :: groups) = hexGroup group ++ joined colon (groups.map hexGroup) := by
  induction groups generalizing group with
  | nil => rw [hexGroups_singleton, map_nil, joined_nil, append_nil]
  | cons next groups ih => rw [hexGroups_cons_cons, ih, map_cons, joined_cons]

theorem getLast_append_hexGroup (text : Bytes) (group : UInt16) :
    (text ++ hexGroup group).getLast? ≠ some colon := by
  intro hlast
  rw [getLast?_append, getLast?_eq_some_getLast (hexGroup_ne_nil group), some_or] at hlast
  have hmem := getLast_mem (hexGroup_ne_nil group)
  rw [Option.some.inj hlast] at hmem
  exact colon_notMem_hexGroup group hmem

theorem foldl_appendGroup (groups : List UInt16) (hout : out ≠ []) (hlast : out.getLast? ≠ some colon) :
    groups.foldl appendGroup out = out ++ joined colon (groups.map hexGroup) := by
  induction groups generalizing out with
  | nil => rw [foldl_nil, map_nil, joined_nil, append_nil]
  | cons group groups ih =>
    have happend : appendGroup out group = out ++ [colon] ++ hexGroup group := by
      rw [appendGroup, if_pos ⟨hout, hlast⟩, snprintf_hexGroup]
    have hne : out ++ [colon] ++ hexGroup group ≠ [] := by simp
    rw [foldl_cons, happend, ih hne (getLast_append_hexGroup _ group), map_cons, joined_cons,
      append_assoc, append_assoc, singleton_append]

theorem foldl_appendGroup_hexGroups (groups : List UInt16)
    (hout : out = [] ∨ out.getLast? = some colon) :
    groups.foldl appendGroup out = out ++ hexGroups groups := by
  cases groups with
  | nil => rw [foldl_nil, hexGroups_eq_nil_iff.mpr rfl, append_nil]
  | cons group groups =>
    have hskipped : ¬(out ≠ [] ∧ out.getLast? ≠ some colon) := fun ⟨hne, hlast⟩ ↦ hout.elim hne hlast
    have happend : appendGroup out group = out ++ hexGroup group := by
      rw [appendGroup, if_neg hskipped, snprintf_hexGroup]
    have hne : out ++ hexGroup group ≠ [] := fun hnil ↦
      hexGroup_ne_nil group (append_eq_nil_iff.mp hnil).2
    rw [foldl_cons, happend, foldl_appendGroup groups hne (getLast_append_hexGroup out group),
      hexGroups_cons, append_assoc]

theorem writeGroups_front (bestLen : Nat) (back : List UInt16) (out : Bytes)
    (hbefore : ∀ start, bestStart = some start → i + front.length ≤ start ∨ start < i) :
    writeGroups bestStart bestLen i 0 (front ++ back) out =
      writeGroups bestStart bestLen (i + front.length) 0 back (front.foldl appendGroup out) := by
  induction front generalizing i out with
  | nil => rfl
  | cons group front ih =>
    have hhere : bestStart ≠ some i := by
      intro hstart
      rcases hbefore i hstart with hlater | hearlier
      · rw [length_cons] at hlater
        omega
      · exact absurd hearlier (Nat.lt_irrefl i)
    have hnext : ∀ start, bestStart = some start → i + 1 + front.length ≤ start ∨ start < i + 1 := by
      intro start hstart
      have hplace := hbefore start hstart
      rw [length_cons] at hplace
      omega
    rw [cons_append, writeGroups, if_neg hhere, ih _ hnext, foldl_cons, length_cons,
      Nat.add_right_comm, Nat.add_assoc]

theorem writeGroups_skip (bestStart : Option Nat) (bestLen i : Nat) (front back : List UInt16) (out : Bytes) :
    writeGroups bestStart bestLen i front.length (front ++ back) out =
      writeGroups bestStart bestLen (i + front.length) 0 back out := by
  induction front generalizing i with
  | nil => rfl
  | cons group front ih =>
    rw [cons_append, length_cons, writeGroups, ih, Nat.add_right_comm, Nat.add_assoc]

theorem writeGroups_whole (bestLen : Nat) (groups : List UInt16) :
    writeGroups none bestLen 0 0 groups [] = hexGroups groups := by
  have hbefore : ∀ start, none = some start → 0 + groups.length ≤ start ∨ start < 0 := by
    intro start hstart
    cases hstart
  have hfront := writeGroups_front bestLen [] [] hbefore
  rw [append_nil] at hfront
  rw [hfront, foldl_appendGroup_hexGroups groups (.inl rfl)]
  cases groups <;> rfl

theorem writeGroups_gapped (front middle back : List UInt16) (hmiddle : middle ≠ []) :
    writeGroups (some front.length) middle.length 0 0 (front ++ (middle ++ back)) [] =
      hexGroups front ++ gap ++ hexGroups back := by
  obtain ⟨first, others, rfl⟩ := exists_cons_of_ne_nil hmiddle
  have hbefore : ∀ start, some front.length = some start → 0 + front.length ≤ start ∨ start < 0 := by
    intro start hstart
    exact .inl (by simp [Option.some.inj hstart])
  have hbehind : ∀ start, some front.length = some start →
      front.length + 1 + others.length + back.length ≤ start ∨ start < front.length + 1 + others.length := by
    intro start hstart
    have hsame := Option.some.inj hstart
    omega
  have hgap : (hexGroups front ++ gap).getLast? = some colon := by
    simp [gap]
  have hback := writeGroups_front (first :: others).length [] (hexGroups front ++ gap) hbehind
  rw [append_nil] at hback
  rw [writeGroups_front _ _ _ hbefore, foldl_appendGroup_hexGroups front (.inl rfl), nil_append,
    cons_append, Nat.zero_add, writeGroups, if_pos rfl, length_cons, Nat.add_sub_cancel,
    writeGroups_skip, ← length_cons, hback, foldl_appendGroup_hexGroups back (.inr hgap)]
  cases back <;> rfl

theorem length_groupsOf (bytes : Buffer) : (groupsOf bytes).length = 8 := by
  rw [groupsOf, length_map, length_range]

theorem ip6Text_eq (bytes : Buffer) : ∃ bestStart bestLen,
    LongestBelow (isZero (groupsOf bytes)) (groupsOf bytes).length bestStart bestLen ∧
      ip6Text bytes = shortenedText (groupsOf bytes) bestStart bestLen := by
  have hlength := length_groupsOf bytes
  have hunmarked : isZero (groupsOf bytes) 8 = false := by
    rw [isZero, getElem?_eq_none hlength.le]
    rfl
  have hbest := longestBelow_runScan hunmarked
  rw [ip6Text]
  generalize runScan (isZero (groupsOf bytes)) 9 = scan at hbest ⊢
  obtain ⟨bestStart, bestLen, runStart⟩ := scan
  refine ⟨bestStart, bestLen, hlength ▸ hbest, ?_⟩
  cases bestStart with
  | none => rw [ite_self, writeGroups_whole, shortenedText]
  | some start =>
    rw [shortenedText]
    by_cases hgap : 2 ≤ bestLen
    · obtain ⟨-, hend, hrun⟩ := hbest.run start rfl
      have hgroups := eq_take_replicate_drop hrun (hlength ▸ hend)
      have hstart : ((groupsOf bytes).take start).length = start := by
        rw [length_take]
        omega
      have hwritten := writeGroups_gapped ((groupsOf bytes).take start) (List.replicate bestLen 0)
        ((groupsOf bytes).drop (start + bestLen)) (by simp; omega)
      rw [hstart, length_replicate, ← append_assoc, ← hgroups] at hwritten
      rw [if_neg (not_lt.mpr hgap), if_pos hgap, gappedText, hwritten]
    · rw [if_pos (not_le.mp hgap), if_neg hgap, writeGroups_whole]

theorem recommended_ip6Text (bytes : Buffer) : Recommended (groupsOf bytes) (ip6Text bytes) := by
  obtain ⟨bestStart, bestLen, hbest, htext⟩ := ip6Text_eq bytes
  rw [htext]
  exact recommended_shortened hbest

theorem readIp6_ip6Text (bytes : Buffer) : readIp6 (ip6Text bytes) = some (groupsOf bytes) := by
  obtain ⟨bestStart, bestLen, hbest, htext⟩ := ip6Text_eq bytes
  rw [htext]
  exact readIp6_shortened (length_groupsOf bytes) hbest

def groupBytes (group : UInt16) : Bytes := [(group >>> 8).toUInt8, group.toUInt8]

theorem groupBytes_pairUp (high low : UInt8) : groupBytes (pairUp high low) = [high, low] := by
  obtain ⟨hlow, hhigh⟩ := halfBytes_or low high
  rw [groupBytes, pairUp, UInt16.or_comm, hlow, hhigh]

theorem flatMap_groupBytes (bytes : Buffer) : (groupsOf bytes).flatMap groupBytes = slice bytes 0 16 := by
  have hslice : slice bytes 0 16 =
      (List.range 8).flatMap fun i ↦ [bytes (2 * i), bytes (2 * i + 1)] := by
    simp [slice, range_succ]
  rw [hslice, groupsOf, flatMap_map]
  exact flatMap_congr fun i _ ↦ groupBytes_pairUp _ _

end DhcpServer.Core.IpText
