import DhcpServer.Dns.CacheFile

/-!
# The records of a cache file

The layout of a record in the three versions of the format, as the reader's header file describes
it, and that the reader accepts such records and no others.
-/

namespace DhcpServer.Dns.CacheFile

open Library InternalCache List Option

/-- The usage counter: absent in version 1, eight bytes in version 2, four in version 3. -/
def usesBytes (version : UInt32) (uses : Nat) : Bytes :=
  if version < kVersionUses64 then []
  else if version = kVersionUses64 then
    putU32 (UInt32.ofNat uses) ++ putU32 (UInt32.ofNat (uses / 0x100000000))
  else putU32 (UInt32.ofNat uses)

def usesLimit (version : UInt32) : Nat :=
  if version < kVersionUses64 then 1
  else if version = kVersionUses64 then 0x10000000000000000
  else 0x100000000

/-- A record a file of the version may hold. `others` is the count of the family the record has no
addresses of, which the reader bounds and ignores. -/
structure WellFormedRecord (version : UInt32) where
  record : CacheFileRecord
  others : Nat
  name_pos : 0 < record.name.length
  name_le : record.name.length ≤ kMaxNameBytes
  uses_lt : record.uses < usesLimit version
  addrs_pos : 0 < record.addrs.length
  family :
    (record.qtype = kTypeA ∧ record.addrs.length ≤ kMaxA ∧ others ≤ kMaxAaaa ∧
      ∀ addr ∈ record.addrs, addr.length = kBytesPerIpv4) ∨
    (record.qtype = kTypeAaaa ∧ record.addrs.length ≤ kMaxAaaa ∧ others ≤ kMaxA ∧
      ∀ addr ∈ record.addrs, addr.length = kBytesPerIpv6)

namespace WellFormedRecord

variable {version : UInt32}

def countA (piece : WellFormedRecord version) : Nat :=
  if piece.record.qtype = kTypeA then piece.record.addrs.length else piece.others

def countAaaa (piece : WellFormedRecord version) : Nat :=
  if piece.record.qtype = kTypeA then piece.others else piece.record.addrs.length

def tail (piece : WellFormedRecord version) : Bytes :=
  [piece.record.qtype.toUInt8, (piece.record.qtype >>> 8).toUInt8, UInt8.ofNat piece.countA,
    UInt8.ofNat piece.countAaaa] ++ putU32 piece.record.ttlRemaining

def bytes (piece : WellFormedRecord version) : Bytes :=
  [UInt8.ofNat piece.record.name.length] ++ piece.record.name ++ piece.tail ++
    usesBytes version piece.record.uses ++ piece.record.addrs.flatten

end WellFormedRecord

theorem readExact_append {count : Nat} {bytes : Bytes} (hlength : bytes.length = count)
    (rest : Bytes) : readExact count (bytes ++ rest) = some (bytes, rest) := by
  subst hlength
  simp [readExact]

theorem readExact_eq_some {count : Nat} {bytes part rest : Bytes}
    (hread : readExact count bytes = some (part, rest)) :
    part.length = count ∧ bytes = part ++ rest := by
  rw [readExact] at hread
  split at hread
  · next hroom =>
    cases hread
    exact ⟨length_take_of_le hroom, (take_append_drop count bytes).symm⟩
  · cases hread

theorem length_putU32 (word : UInt32) : (putU32 word).length = 4 := rfl

theorem getU32_putU32 (word : UInt32) (rest : Bytes) : getU32 (putU32 word ++ rest) = word :=
  readU32_wordBytes word rest

theorem putU32_getU32 {bytes : Bytes} (hlength : bytes.length = 4) : putU32 (getU32 bytes) = bytes :=
  wordBytes_readU32 hlength

theorem readAddrs_flatten {width : Nat} {addrs : List Bytes}
    (hwidth : ∀ addr ∈ addrs, addr.length = width) (rest : Bytes) :
    readAddrs width addrs.length (addrs.flatten ++ rest) = some (addrs, rest) := by
  induction addrs with
  | nil => rfl
  | cons addr addrs ih =>
    have hfirst : addr.length = width := hwidth addr mem_cons_self
    have hothers := ih fun other hother ↦ hwidth other (mem_cons_of_mem addr hother)
    rw [length_cons, readAddrs, flatten_cons, append_assoc, readExact_append hfirst]
    simp [hothers]

theorem readAddrs_eq_some {width count : Nat} {bytes rest : Bytes} {addrs : List Bytes}
    (hread : readAddrs width count bytes = some (addrs, rest)) :
    addrs.length = count ∧ (∀ addr ∈ addrs, addr.length = width) ∧ bytes = addrs.flatten ++ rest := by
  induction count generalizing bytes addrs with
  | zero =>
    cases hread
    simp
  | succ count ih =>
    simp only [readAddrs, bind_eq_bind, bind_eq_some_iff, Prod.exists] at hread
    obtain ⟨addr, behind, hfirst, others, after, hothers, hlast⟩ := hread
    cases hlast
    obtain ⟨hlength, rfl⟩ := readExact_eq_some hfirst
    obtain ⟨rfl, hwidths, rfl⟩ := ih hothers
    refine ⟨length_cons, ?_, by rw [flatten_cons, append_assoc]⟩
    exact forall_mem_cons.mpr ⟨hlength, hwidths⟩

theorem getU64_putU32 (low high : UInt32) :
    getU64 (putU32 low ++ putU32 high) = low.toNat + 0x100000000 * high.toNat := by
  have hhigh := getU32_putU32 high []
  rw [append_nil] at hhigh
  rw [getU64, getU32_putU32, drop_left' (length_putU32 low), hhigh]

theorem readUses_usesBytes {version : UInt32} {uses : Nat} (huses : uses < usesLimit version)
    (rest : Bytes) : readUses version (usesBytes version uses ++ rest) = some (uses, rest) := by
  unfold readUses usesBytes
  unfold usesLimit at huses
  by_cases hnone : version < kVersionUses64
  · rw [if_pos hnone] at huses
    rw [if_pos hnone, if_pos hnone, Nat.lt_one_iff.mp huses, nil_append]
  · rw [if_neg hnone] at huses
    rw [if_neg hnone, if_neg hnone]
    by_cases hwide : version = kVersionUses64
    · have hwidth : (putU32 (UInt32.ofNat uses) ++
          putU32 (UInt32.ofNat (uses / 0x100000000))).length = 8 := rfl
      rw [if_pos hwide] at huses
      rw [if_pos hwide, if_pos hwide, readExact_append hwidth, map_some]
      have hvalue : getU64 (putU32 (UInt32.ofNat uses) ++
          putU32 (UInt32.ofNat (uses / 0x100000000))) = uses := by
        rw [getU64_putU32, UInt32.toNat_ofNat', UInt32.toNat_ofNat']
        omega
      simp only [hvalue]
    · rw [if_neg hwide] at huses
      rw [if_neg hwide, if_neg hwide, readExact_append (length_putU32 _), map_some]
      have hvalue := getU32_putU32 (UInt32.ofNat uses) []
      rw [append_nil] at hvalue
      have hnumber : (UInt32.ofNat uses).toNat = uses := by
        rw [UInt32.toNat_ofNat']
        exact Nat.mod_eq_of_lt huses
      simp only [hvalue, hnumber]

theorem readUses_eq_some {version : UInt32} {bytes rest : Bytes} {uses : Nat}
    (hread : readUses version bytes = some (uses, rest)) :
    uses < usesLimit version ∧ bytes = usesBytes version uses ++ rest := by
  unfold readUses at hread
  unfold usesBytes usesLimit
  by_cases hnone : version < kVersionUses64
  · rw [if_pos hnone] at hread
    cases hread
    rw [if_pos hnone, if_pos hnone]
    exact ⟨Nat.one_pos, rfl⟩
  · rw [if_neg hnone] at hread
    rw [if_neg hnone, if_neg hnone]
    by_cases hwide : version = kVersionUses64
    · rw [if_pos hwide] at hread
      rw [if_pos hwide, if_pos hwide]
      obtain ⟨⟨field, behind⟩, hfield, hvalue⟩ := map_eq_some_iff.mp hread
      cases hvalue
      obtain ⟨hlength, rfl⟩ := readExact_eq_some hfield
      -- the eight bytes are those of two words
      obtain ⟨low, high, rfl⟩ : ∃ low high, field = putU32 low ++ putU32 high := by
        refine ⟨getU32 (field.take 4), getU32 (field.drop 4), ?_⟩
        rw [putU32_getU32 (by simp [hlength]), putU32_getU32 (by simp [hlength]), take_append_drop]
      have hlow := low.toNat_lt
      have hhigh := high.toNat_lt
      have hfirst : UInt32.ofNat (low.toNat + 0x100000000 * high.toNat) = low := by
        apply UInt32.toNat_inj.mp
        rw [UInt32.toNat_ofNat']
        omega
      have hsecond : UInt32.ofNat ((low.toNat + 0x100000000 * high.toNat) / 0x100000000) = high := by
        apply UInt32.toNat_inj.mp
        rw [UInt32.toNat_ofNat']
        omega
      rw [getU64_putU32, hfirst, hsecond]
      exact ⟨by omega, rfl⟩
    · rw [if_neg hwide] at hread
      rw [if_neg hwide, if_neg hwide]
      obtain ⟨⟨field, behind⟩, hfield, hvalue⟩ := map_eq_some_iff.mp hread
      cases hvalue
      obtain ⟨hlength, rfl⟩ := readExact_eq_some hfield
      refine ⟨(getU32 field).toNat_lt, ?_⟩
      rw [UInt32.ofNat_toNat, putU32_getU32 hlength]

section Record

variable {version : UInt32}

theorem readRecord_bytes (piece : WellFormedRecord version) (rest : Bytes) :
    readRecord version (piece.bytes ++ rest) = .ok (piece.record, rest) := by
  have hcounts : piece.countA ≤ 16 ∧ piece.countAaaa ≤ 8 := by
    have hne : kTypeAaaa ≠ kTypeA := by decide
    rw [WellFormedRecord.countA, WellFormedRecord.countAaaa]
    rcases piece.family with ⟨htype, hroom, hothers, -⟩ | ⟨htype, hroom, hothers, -⟩
    · rw [if_pos htype, if_pos htype]
      exact ⟨hroom, hothers⟩
    · rw [if_neg (htype ▸ hne), if_neg (htype ▸ hne)]
      exact ⟨hothers, hroom⟩
  have hname_pos := piece.name_pos
  have hname_le : piece.record.name.length ≤ 127 := piece.name_le
  have hbytes : piece.bytes ++ rest = [UInt8.ofNat piece.record.name.length] ++
      (piece.record.name ++ (piece.tail ++ (usesBytes version piece.record.uses ++
        (piece.record.addrs.flatten ++ rest)))) := by
    simp only [WellFormedRecord.bytes, append_assoc]
  have hone : [UInt8.ofNat piece.record.name.length].length = 1 := rfl
  have htail : piece.tail.length = kTailBytes := rfl
  have hlength : ([UInt8.ofNat piece.record.name.length].getD 0 0).toNat =
      piece.record.name.length := by
    change (UInt8.ofNat piece.record.name.length).toNat = _
    rw [UInt8.toNat_ofNat']
    omega
  have hqtype : (piece.tail.getD 0 0).toUInt16 ||| (piece.tail.getD 1 0).toUInt16 <<< 8 =
      piece.record.qtype :=
    or_halfBytes piece.record.qtype
  have hcountA : (piece.tail.getD 2 0).toNat = piece.countA := by
    change (UInt8.ofNat piece.countA).toNat = _
    rw [UInt8.toNat_ofNat']
    omega
  have hcountAaaa : (piece.tail.getD 3 0).toNat = piece.countAaaa := by
    change (UInt8.ofNat piece.countAaaa).toNat = _
    rw [UInt8.toNat_ofNat']
    omega
  have httl : getU32 (piece.tail.drop 4) = piece.record.ttlRemaining := by
    have hread := getU32_putU32 piece.record.ttlRemaining []
    rwa [append_nil] at hread
  have hfits : ¬ (piece.record.name.length = 0 ∨ kMaxNameBytes < piece.record.name.length) := by
    simp only [kMaxNameBytes]
    omega
  have hroom : ¬ (kMaxA < piece.countA ∨ kMaxAaaa < piece.countAaaa) := by
    simp only [kMaxA, kMaxAaaa]
    omega
  have hkind : ¬ (piece.record.qtype ≠ kTypeA ∧ piece.record.qtype ≠ kTypeAaaa) := by
    rcases piece.family with ⟨htype, -⟩ | ⟨htype, -⟩
    · exact fun h ↦ h.1 htype
    · exact fun h ↦ h.2 htype
  have hpositive : ¬ piece.record.addrs.length = 0 := piece.addrs_pos.ne'
  have hcount : (if piece.record.qtype = kTypeA then piece.countA else piece.countAaaa) =
      piece.record.addrs.length := by
    rw [WellFormedRecord.countA, WellFormedRecord.countAaaa]
    split <;> rfl
  have haddrs : readAddrs (if piece.record.qtype = kTypeA then kBytesPerIpv4 else kBytesPerIpv6)
      piece.record.addrs.length (piece.record.addrs.flatten ++ rest) =
        some (piece.record.addrs, rest) := by
    apply readAddrs_flatten
    have hne : kTypeAaaa ≠ kTypeA := by decide
    rcases piece.family with ⟨htype, -, -, hwidths⟩ | ⟨htype, -, -, hwidths⟩
    · rwa [if_pos htype]
    · rwa [if_neg (htype ▸ hne)]
  rw [hbytes, readRecord, readExact_append hone]
  simp only [hlength, if_neg hfits, readExact_append rfl, readExact_append htail, hqtype, hcountA,
    hcountAaaa, httl, if_neg hroom, if_neg hkind, readUses_usesBytes piece.uses_lt, hcount,
    if_neg hpositive, haddrs]
  rfl

theorem exists_tail {tail : Bytes} (htail : tail.length = kTailBytes) : ∃ low high countA countAaaa ttl,
      tail = [low, high, countA, countAaaa] ++ putU32 ttl := by
  match tail, htail with
  | low :: high :: countA :: countAaaa :: last, htail =>
    have hlast : last.length = 4 := by
      simpa [kTailBytes] using htail
    refine ⟨low, high, countA, countAaaa, getU32 last, ?_⟩
    rw [putU32_getU32 hlast]
    rfl

theorem readRecord_eq_ok {bytes rest : Bytes} {record : CacheFileRecord}
    (hread : readRecord version bytes = .ok (record, rest)) :
    ∃ piece : WellFormedRecord version, piece.record = record ∧ bytes = piece.bytes ++ rest := by
  simp only [readRecord, bind, Except.bind, throw, throwThe, MonadExceptOf.throw, pure,
    Except.pure] at hread
  split at hread
  case h_2 => cases hread
  next lengthByte afterLength hlengthByte =>
  split at hread
  case isTrue => cases hread
  next hfits =>
  split at hread
  case h_2 => cases hread
  next name afterName hname =>
  split at hread
  case h_2 => cases hread
  next tail afterTail htail =>
  generalize hqtype : (tail.getD 0 0).toUInt16 ||| (tail.getD 1 0).toUInt16 <<< 8 = qtype at hread
  split at hread
  case isTrue => cases hread
  next hroom =>
  split at hread
  case isTrue => cases hread
  next hkind =>
  split at hread
  case h_2 => cases hread
  next uses afterUses huses =>
  generalize hcount : (if qtype = kTypeA then (tail.getD 2 0).toNat else (tail.getD 3 0).toNat) =
    count at hread
  generalize hwidth : (if qtype = kTypeA then kBytesPerIpv4 else kBytesPerIpv6) = width at hread
  split at hread
  case isTrue => cases hread
  next hpositive =>
  split at hread
  case h_2 => cases hread
  next addrs afterAddrs haddrs =>
  obtain ⟨rfl, rfl⟩ := Prod.mk.inj (Except.ok.inj hread)
  obtain ⟨hone, rfl⟩ := readExact_eq_some hlengthByte
  obtain ⟨hnameLength, rfl⟩ := readExact_eq_some hname
  obtain ⟨height, rfl⟩ := readExact_eq_some htail
  obtain ⟨husesLt, rfl⟩ := readUses_eq_some huses
  obtain ⟨rfl, hwidths, rfl⟩ := readAddrs_eq_some haddrs
  obtain ⟨length, rfl⟩ := length_eq_one_iff.mp hone
  obtain ⟨low, high, countA, countAaaa, ttl, rfl⟩ := exists_tail height
  change name.length = length.toNat at hnameLength
  change low.toUInt16 ||| high.toUInt16 <<< 8 = qtype at hqtype
  have httl : getU32 (([low, high, countA, countAaaa] ++ putU32 ttl).drop 4) = ttl := by
    have hword := getU32_putU32 ttl []
    rwa [append_nil] at hword
  obtain ⟨hlow, hhigh⟩ := halfBytes_or low high
  rw [hqtype] at hlow hhigh
  have hne : kTypeAaaa ≠ kTypeA := by decide
  have hkinds : qtype = kTypeA ∨ qtype = kTypeAaaa := by
    by_contra hneither
    exact hkind (not_or.mp hneither)
  obtain ⟨hroomA, hroomAaaa⟩ := not_or.mp hroom
  let record : CacheFileRecord := ⟨name, qtype, ttl, uses, addrs⟩
  let others := if qtype = kTypeA then countAaaa.toNat else countA.toNat
  have hfamily : (record.qtype = kTypeA ∧ addrs.length ≤ kMaxA ∧ others ≤ kMaxAaaa ∧
        ∀ addr ∈ addrs, addr.length = kBytesPerIpv4) ∨
      (record.qtype = kTypeAaaa ∧ addrs.length ≤ kMaxAaaa ∧ others ≤ kMaxA ∧
        ∀ addr ∈ addrs, addr.length = kBytesPerIpv6) := by
    rcases hkinds with hA | hAaaa
    · left
      rw [if_pos hA] at hcount hwidth
      rw [← hcount, show others = countAaaa.toNat from if_pos hA, hwidth]
      exact ⟨hA, not_lt.mp hroomA, not_lt.mp hroomAaaa, hwidths⟩
    · right
      have hnotA : ¬ qtype = kTypeA := hAaaa ▸ hne
      rw [if_neg hnotA] at hcount hwidth
      rw [← hcount, show others = countA.toNat from if_neg hnotA, hwidth]
      exact ⟨hAaaa, not_lt.mp hroomAaaa, not_lt.mp hroomA, hwidths⟩
  have hnamed : name.length ≠ 0 ∧ name.length ≤ kMaxNameBytes := by
    rw [hnameLength]
    exact ⟨fun h ↦ hfits (.inl h), not_lt.mp fun h ↦ hfits (.inr h)⟩
  let piece : WellFormedRecord version :=
    ⟨record, others, Nat.pos_of_ne_zero hnamed.1, hnamed.2, husesLt, Nat.pos_of_ne_zero hpositive, hfamily⟩
  have hcountA : UInt8.ofNat piece.countA = countA := by
    have hvalue : piece.countA = countA.toNat := by
      rw [WellFormedRecord.countA]
      rw [← hcount]
      grind
    rw [hvalue, UInt8.ofNat_toNat]
  have hcountAaaa : UInt8.ofNat piece.countAaaa = countAaaa := by
    have hvalue : piece.countAaaa = countAaaa.toNat := by
      rw [WellFormedRecord.countAaaa]
      rw [← hcount]
      grind
    rw [hvalue, UInt8.ofNat_toNat]
  have htailBytes : piece.tail = [low, high, countA, countAaaa] ++ putU32 ttl := by
    rw [WellFormedRecord.tail, hcountA, hcountAaaa]
    rw [hlow, hhigh]
  have hlengthByte : UInt8.ofNat piece.record.name.length = length := by
    rw [hnameLength, UInt8.ofNat_toNat]
  refine ⟨piece, ?_, ?_⟩
  · rw [httl]
  · rw [WellFormedRecord.bytes, htailBytes, hlengthByte]
    simp only [append_assoc]
    rfl

end Record

end DhcpServer.Dns.CacheFile
