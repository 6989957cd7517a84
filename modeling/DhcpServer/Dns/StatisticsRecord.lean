import DhcpServer.Dns.DnsStatStore

/-!
# What the statistics file may hold

A record has one of two lengths, and its header says which. `decode` takes exactly the records, and a
record with one byte changed is none. `load` takes the record at the beginning of a file whatever
stands behind it.
-/

namespace DhcpServer.Dns.DnsStatStore

open Library Core.AtomicFile List

/-- A record of one version, with its length and the number of bytes its counters take. -/
structure IsRecord (version payload : UInt32) (size : Nat) (record : Bytes) : Prop where
  length : record.length = size
  magic : record.take 4 = kMagic
  version : getU32 record 4 = version
  payload : getU32 record 8 = payload
  checksum : getU32 record (size - 4) = checksumOf (record.take (size - 4))

def WellFormed (record : Bytes) : Prop := IsRecord 1 24 44 record ∨ IsRecord 2 72 92 record

/-- The counters of a record; the first version has three. -/
def countersOf (record : Bytes) (out : DnsStatTotals) : DnsStatTotals :=
  let first := { out with
    hits := getU64 record 16
    forwards := getU64 record 24
    hitUsSum := getU64 record 32 }
  if getU32 record 4 = 1 then first
  else
    { first with
      waitUs := getU64 record 40
      walkedNodes := getU64 record 48
      stores := getU64 record 56
      evictScans := getU64 record 64
      evictScanUs := getU64 record 72
      evictScanNodes := getU64 record 80 }

variable {record : Bytes} {out totals : DnsStatTotals}

theorem WellFormed.length (hrecord : WellFormed record) : record.length = 44 ∨ record.length = 92 :=
  hrecord.imp IsRecord.length IsRecord.length

theorem decode_of_isRecord {version payload : UInt32} {size : Nat}
    (hrecord : IsRecord version payload size record)
    (hknown : (version, payload, size) = (1, 24, 44) ∨ (version, payload, size) = (2, 72, 92)) :
    decode record out = .ok (countersOf record out) := by
  obtain ⟨hlength, hmagic, hversion, hpayload, hchecksum⟩ := hrecord
  have hmagic' : record.take kMagic.length = kMagic := hmagic
  have hversion' : getU32 record kVersionOffset = version := hversion
  have hpayload' : getU32 record kPayloadSizeOffset = payload := hpayload
  have hchecksum' : getU32 record (size - kChecksumBytes.toNat) =
      checksumOf (record.take (size - kChecksumBytes.toNat)) := hchecksum
  have htests : (size = kRecordSize ∨ size = kRecordSizeLegacy) ∧ ¬(version = 0 ∨ kVersion < version) ∧
      wantPayload version = payload ∧ sizeFor payload = size ∧ (version = 1 ↔ ¬2 ≤ version) := by
    rcases hknown with hknown | hknown <;> cases hknown <;> decide
  obtain ⟨hsize, hsupported, hwant, hfits, hfirst⟩ := htests
  rw [decode, hlength, if_neg (by tauto), if_neg (not_not_intro hmagic')]
  simp only [hversion', hpayload', hchecksum', if_neg hsupported, hwant, hfits, ne_eq,
    not_true_eq_false, or_self, if_false]
  rw [countersOf, hversion]
  by_cases hcase : version = 1
  · rw [if_neg (hfirst.mp hcase), if_pos hcase]
    rfl
  · rw [if_pos (not_not.mp (mt hfirst.mpr hcase)), if_neg hcase]
    rfl

theorem decode_of_wellFormed (hrecord : WellFormed record) :
    decode record out = .ok (countersOf record out) :=
  hrecord.elim (fun hfirst ↦ decode_of_isRecord hfirst (.inl rfl))
    fun hsecond ↦ decode_of_isRecord hsecond (.inr rfl)

theorem eq_of_supported {version : UInt32} (hsupported : ¬(version = 0 ∨ kVersion < version)) :
    version = 1 ∨ version = 2 := by
  obtain ⟨hzero, hnewer⟩ := not_or.mp hsupported
  have hpositive : version.toNat ≠ 0 := fun heq ↦ hzero (UInt32.toNat_inj.mp heq)
  have hbound : ¬2 < version.toNat := hnewer
  by_cases hfirst : version.toNat = 1
  · exact .inl (UInt32.toNat_inj.mp hfirst)
  · have hsecond : version.toNat = 2 := by omega
    exact .inr (UInt32.toNat_inj.mp hsecond)

theorem wellFormed_of_decode (hdecode : decode record out = .ok totals) : WellFormed record := by
  have htests : record.take kMagic.length = kMagic ∧
      ¬(getU32 record kVersionOffset = 0 ∨ kVersion < getU32 record kVersionOffset) ∧
      ¬(getU32 record kPayloadSizeOffset ≠ wantPayload (getU32 record kVersionOffset) ∨
        record.length ≠ sizeFor (wantPayload (getU32 record kVersionOffset))) ∧
      getU32 record (record.length - kChecksumBytes.toNat) =
        checksumOf (record.take (record.length - kChecksumBytes.toNat)) := by
    rw [decode] at hdecode
    dsimp only at hdecode
    split_ifs at hdecode with hsize hmagic hsupported hpayload hchecksum
    · exact ⟨not_not.mp hmagic, hsupported, hpayload, not_not.mp hchecksum⟩
    · exact ⟨not_not.mp hmagic, hsupported, hpayload, not_not.mp hchecksum⟩
  obtain ⟨hmagic, hsupported, hpayload, hchecksum⟩ := htests
  obtain ⟨hpayload, hlength⟩ := not_or.mp hpayload
  have hpayload := not_not.mp hpayload
  have hlength := not_not.mp hlength
  rw [hlength] at hchecksum
  rcases eq_of_supported hsupported with hversion | hversion
  · rw [hversion] at hpayload hlength hchecksum
    exact .inl ⟨hlength, hmagic, hversion, hpayload, hchecksum⟩
  · rw [hversion] at hpayload hlength hchecksum
    exact .inr ⟨hlength, hmagic, hversion, hpayload, hchecksum⟩

theorem decode_eq_ok_iff :
    decode record out = .ok totals ↔ WellFormed record ∧ totals = countersOf record out := by
  constructor
  · intro hdecode
    have hrecord := wellFormed_of_decode hdecode
    rw [decode_of_wellFormed hrecord] at hdecode
    exact ⟨hrecord, (Except.ok.inj hdecode).symm⟩
  · rintro ⟨hrecord, rfl⟩
    exact decode_of_wellFormed hrecord

def counterWords (counter : UInt64) : List UInt32 := [counter.toUInt32, (counter >>> 32).toUInt32]

def bodyWords (totals : DnsStatTotals) : List UInt32 :=
  [0x31545344, kVersion, kPayloadV2Bytes, 0] ++ totals.counters.flatMap counterWords

theorem encode_eq (totals : DnsStatTotals) : encode totals =
      (bodyWords totals ++ [checksumOf ((bodyWords totals).flatMap wordBytes)]).flatMap wordBytes := by
  have hbody : kMagic ++ putU32 kVersion ++ putU32 kPayloadV2Bytes ++ putU32 0 ++
      totals.counters.flatMap putU64 = (bodyWords totals).flatMap wordBytes := by
    simp only [bodyWords, DnsStatTotals.counters, counterWords, putU64, flatMap_cons,
      flatMap_nil, cons_append, nil_append, append_nil, append_assoc]
    rfl
  rw [encode, hbody, flatMap_append, flatMap_singleton]
  rfl

theorem getU32_encode (place : Nat) {word : UInt32} (hword : (bodyWords totals)[place]? = some word) :
    getU32 (encode totals) (4 * place) = word := by
  obtain ⟨hplace, -⟩ := List.getElem?_eq_some_iff.mp hword
  rw [encode_eq, getU32]
  exact readU32_flatMap_wordBytes ((getElem?_append_left hplace).trans hword)

theorem getU64_encode (place : Nat) {counter : UInt64}
    (hlow : (bodyWords totals)[place]? = some counter.toUInt32)
    (hhigh : (bodyWords totals)[place + 1]? = some (counter >>> 32).toUInt32) :
    getU64 (encode totals) (4 * place) = counter := by
  have hnext : 4 * place + 4 = 4 * (place + 1) := by omega
  rw [getU64, getU32_encode place hlow, hnext, getU32_encode (place + 1) hhigh]
  exact or_halves counter

theorem isRecord_encode (totals : DnsStatTotals) : IsRecord 2 72 92 (encode totals) where
  length := by
    rw [encode_eq, length_flatMap_wordBytes]
    rfl
  magic := by
    simp only [encode, append_assoc]
    exact take_left' rfl
  version := getU32_encode 1 rfl
  payload := getU32_encode 2 rfl
  checksum := by
    have hlength : ((bodyWords totals).flatMap wordBytes).length = 88 := length_flatMap_wordBytes _
    have hbody : (encode totals).take 88 = (bodyWords totals).flatMap wordBytes := by
      rw [encode_eq, flatMap_append]
      exact take_left' hlength
    have hlast : (bodyWords totals ++ [checksumOf ((bodyWords totals).flatMap wordBytes)])[22]? =
        some (checksumOf ((bodyWords totals).flatMap wordBytes)) := rfl
    have hword := readU32_flatMap_wordBytes hlast
    rw [← encode_eq, ← hbody] at hword
    exact hword

theorem decode_encode (totals out : DnsStatTotals) : decode (encode totals) out = .ok totals := by
  have hhits : getU64 (encode totals) 16 = totals.hits := getU64_encode 4 rfl rfl
  have hforwards : getU64 (encode totals) 24 = totals.forwards := getU64_encode 6 rfl rfl
  have hhitUsSum : getU64 (encode totals) 32 = totals.hitUsSum := getU64_encode 8 rfl rfl
  have hwaitUs : getU64 (encode totals) 40 = totals.waitUs := getU64_encode 10 rfl rfl
  have hwalkedNodes : getU64 (encode totals) 48 = totals.walkedNodes := getU64_encode 12 rfl rfl
  have hstores : getU64 (encode totals) 56 = totals.stores := getU64_encode 14 rfl rfl
  have hevictScans : getU64 (encode totals) 64 = totals.evictScans := getU64_encode 16 rfl rfl
  have hevictScanUs : getU64 (encode totals) 72 = totals.evictScanUs := getU64_encode 18 rfl rfl
  have hevictScanNodes : getU64 (encode totals) 80 = totals.evictScanNodes := getU64_encode 20 rfl rfl
  rw [decode_of_wellFormed (.inr (isRecord_encode totals)), countersOf, (isRecord_encode totals).version,
    if_neg (by decide), hhits, hforwards, hhitUsSum, hwaitUs, hwalkedNodes, hstores, hevictScans,
    hevictScanUs, hevictScanNodes]

theorem checksumOf_append (first second : Bytes) :
    checksumOf (first ++ second) = checksumOf first + checksumOf second := by
  have hfold (sum : UInt32) (text : Bytes) :
      text.foldl (fun sum byte ↦ sum + byte.toUInt32) sum = sum + checksumOf text := by
    induction text generalizing sum with
    | nil => exact (UInt32.add_zero sum).symm
    | cons byte text ih =>
      calc (byte :: text).foldl (fun sum byte ↦ sum + byte.toUInt32) sum
          = sum + byte.toUInt32 + checksumOf text := ih (sum + byte.toUInt32)
        _ = sum + (0 + byte.toUInt32 + checksumOf text) := by rw [UInt32.zero_add, UInt32.add_assoc]
        _ = sum + checksumOf (byte :: text) := by rw [← ih (0 + byte.toUInt32)]; rfl
  rw [checksumOf, foldl_append, hfold]
  rfl

theorem checksumOf_set_ne {text : Bytes} {place : Nat} (hplace : place < text.length) {byte : UInt8}
    (hbyte : byte ≠ text[place]) : checksumOf (text.set place byte) ≠ checksumOf text := by
  have hsplit : text = text.take place ++ text[place] :: text.drop (place + 1) := by simp
  have hchanged : text.set place byte = text.take place ++ byte :: text.drop (place + 1) :=
    set_eq_take_append_cons_drop.trans (if_pos hplace)
  intro hsame
  have hsums : checksumOf ([byte] ++ text.drop (place + 1)) =
      checksumOf ([text[place]] ++ text.drop (place + 1)) := by
    rw [hchanged, checksumOf_append] at hsame
    have hsame := hsame.trans ((congrArg checksumOf hsplit).trans (checksumOf_append _ _))
    exact (UInt32.add_right_inj _).mp hsame
  rw [checksumOf_append, checksumOf_append, UInt32.add_left_inj] at hsums
  have hwords : byte.toUInt32 = text[place].toUInt32 := by
    calc byte.toUInt32 = checksumOf [byte] := (UInt32.zero_add _).symm
      _ = checksumOf [text[place]] := hsums
      _ = text[place].toUInt32 := UInt32.zero_add _
  have hvalue := congrArg UInt32.toNat hwords
  rw [UInt8.toNat_toUInt32, UInt8.toNat_toUInt32] at hvalue
  exact hbyte (UInt8.toNat_inj.mp hvalue)

/-- Of two records of one length that differ in one byte at most one has the right checksum. -/
theorem checksum_set_ne {size place : Nat} (hlength : record.length = size) (hsize : 4 ≤ size)
    (hplace : place < record.length) {byte : UInt8} (hbyte : byte ≠ record[place])
    (hchecksum : getU32 record (size - 4) = checksumOf (record.take (size - 4))) :
    getU32 (record.set place byte) (size - 4) ≠ checksumOf ((record.set place byte).take (size - 4)) := by
  intro hchanged
  by_cases hbody : place < size - 4
  · -- the stored word stays as it is
    have hword : getU32 (record.set place byte) (size - 4) = getU32 record (size - 4) := by
      have hkept (i : Nat) (hi : size - 4 ≤ i) : (record.set place byte).getD i 0 = record.getD i 0 := by
        rw [getD_eq_getElem?_getD, getElem?_set_ne (by omega), ← getD_eq_getElem?_getD]
      rw [getU32, getU32, readU32, readU32, hkept _ (le_refl _), hkept _ (Nat.le_add_right _ 1),
        hkept _ (Nat.le_add_right _ 2), hkept _ (Nat.le_add_right _ 3)]
    have hplace' : place < (record.take (size - 4)).length := by
      rw [length_take]
      omega
    have hbyte' : byte ≠ (record.take (size - 4))[place] := by rwa [getElem_take]
    apply checksumOf_set_ne hplace' hbyte'
    rw [← take_set, ← hchanged, hword, hchecksum]
  · have hbefore : (record.set place byte).take (size - 4) = record.take (size - 4) := by
      rw [take_set, set_eq_of_length_le]
      rw [length_take]
      omega
    rw [hbefore, ← hchecksum] at hchanged
    have hword : place - (size - 4) < 4 := by omega
    have hsame := eq_of_readU32_eq hchanged hword
    rw [show size - 4 + (place - (size - 4)) = place by omega, getD_eq_getElem?_getD,
      getElem?_set_self hplace, getD_eq_getElem?_getD, getElem?_eq_getElem hplace] at hsame
    exact hbyte hsame

theorem not_wellFormed_set {place : Nat} {byte : UInt8} (hrecord : WellFormed record)
    (hplace : place < record.length) (hbyte : byte ≠ record[place]) :
    ¬WellFormed (record.set place byte) := by
  have hsize : (record.set place byte).length = record.length := length_set
  rintro (hchanged | hchanged) <;> rcases hrecord with hrecord | hrecord
  · exact checksum_set_ne hrecord.length (by decide) hplace hbyte hrecord.checksum hchanged.checksum
  · exact absurd (hchanged.length.symm.trans (hsize.trans hrecord.length)) (by decide)
  · exact absurd (hchanged.length.symm.trans (hsize.trans hrecord.length)) (by decide)
  · exact checksum_set_ne hrecord.length (by decide) hplace hbyte hrecord.checksum hchanged.checksum

theorem getU32_append {offset : Nat} (hoffset : offset + 4 ≤ record.length) (rest : Bytes) :
    getU32 (record ++ rest) offset = getU32 record offset := by
  have hsame (i : Nat) (hi : i < record.length) : (record ++ rest).getD i 0 = record.getD i 0 := by
    rw [getD_eq_getElem?_getD, getElem?_append_left hi, ← getD_eq_getElem?_getD]
  rw [getU32, getU32, readU32, readU32, hsame offset (by omega), hsame (offset + 1) (by omega),
    hsame (offset + 2) (by omega), hsame (offset + 3) (by omega)]

theorem WellFormed.eq_nil_of_append {rest : Bytes} (hrecord : WellFormed record)
    (hwhole : WellFormed (record ++ rest)) : rest = [] := by
  have hversion : getU32 (record ++ rest) 4 = getU32 record 4 := by
    apply getU32_append
    rcases hrecord.length with hlength | hlength <;> omega
  have hlength : (record ++ rest).length = record.length := by
    rcases hrecord with hrecord | hrecord <;> rcases hwhole with hwhole | hwhole
    · exact hwhole.length.trans hrecord.length.symm
    · exact absurd (hwhole.version.symm.trans (hversion.trans hrecord.version)) (by decide)
    · exact absurd (hwhole.version.symm.trans (hversion.trans hrecord.version)) (by decide)
    · exact hwhole.length.trans hrecord.length.symm
  rw [length_append, Nat.add_eq_left] at hlength
  exact length_eq_zero_iff.mp hlength

def Accepts (file : Option Bytes) (out : DnsStatTotals) : Prop := ∃ totals, loadFile file out = .ok totals

theorem loadFile_eq_ok_iff {content : Bytes} : loadFile (some content) out = .ok totals ↔
      ∃ record rest, content = record ++ rest ∧ WellFormed record ∧ totals = countersOf record out := by
  constructor
  · intro hload
    rw [loadFile] at hload
    dsimp only at hload
    split_ifs at hload with hheader htruncated
    obtain ⟨hrecord, htotals⟩ := decode_eq_ok_iff.mp hload
    rw [take_take] at hrecord htotals
    exact ⟨_, _, (take_append_drop _ content).symm, hrecord, htotals⟩
  · rintro ⟨record, rest, rfl, hrecord, rfl⟩
    have hfits : 16 ≤ record.length ∧ record.length ≤ 92 := by
      rcases hrecord.length with hlength | hlength <;> omega
    have hbuffer : (record ++ rest).take kRecordSize = record ++ rest.take (kRecordSize - record.length) := by
      have hwhole : record.length ≤ kRecordSize := hfits.2
      rw [take_append, take_of_length_le hwhole]
    have hheader : (record ++ rest.take (kRecordSize - record.length)).take kHeaderBytes.toNat =
        record.take kHeaderBytes.toNat := take_append_of_le_length hfits.1
    have hlong : ¬record.length + (rest.take (kRecordSize - record.length)).length < kHeaderBytes.toNat :=
      Nat.not_lt.mpr (hfits.1.trans (Nat.le_add_right _ _))
    have hword : getU32 (record.take kHeaderBytes.toNat) kPayloadSizeOffset = getU32 record 8 := by
      have hbegin : 8 + 4 ≤ (record.take kHeaderBytes.toNat).length := by
        rw [length_take]
        exact Nat.le_min.mpr ⟨by decide, by omega⟩
      have happend := getU32_append hbegin (record.drop kHeaderBytes.toNat)
      rw [take_append_drop] at happend
      exact happend.symm
    have hsize : sizeFor (getU32 record 8) = record.length := by
      rcases hrecord with hrecord | hrecord <;> rw [hrecord.payload, hrecord.length] <;> rfl
    rw [loadFile]
    simp only [hbuffer, hheader, hword, hsize, if_neg hlong, length_append, take_left,
      if_neg (Nat.not_lt.mpr (Nat.le_add_right _ _)), decode_of_wellFormed hrecord]

theorem accepts_iff {content : Bytes} :
    Accepts (some content) out ↔ ∃ record rest, content = record ++ rest ∧ WellFormed record := by
  constructor
  · rintro ⟨totals, htotals⟩
    obtain ⟨record, rest, hcontent, hrecord, -⟩ := loadFile_eq_ok_iff.mp htotals
    exact ⟨record, rest, hcontent, hrecord⟩
  · rintro ⟨record, rest, hcontent, hrecord⟩
    exact ⟨_, loadFile_eq_ok_iff.mpr ⟨record, rest, hcontent, hrecord, rfl⟩⟩

/-- What the format promises, for a file with this content. -/
structure FormatExact (content : Bytes) : Prop where
  decodes : ∀ totals out, decode (encode totals) out = .ok totals
  loads : ∀ path storage totals out, storage path = some (encode totals) →
    (load path storage out).2 = .ok totals
  refusesChanged : ∀ record out totals, decode record out = .ok totals →
    ∀ place byte, (hplace : place < record.length) → byte ≠ record[place] →
      ∃ why, decode (record.set place byte) out = .error why
  acceptsRecords : ∀ path storage out, storage path = some content →
    ((∃ totals, (load path storage out).2 = .ok totals) ↔ WellFormed content)
  acceptedLength : ∀ path storage out, storage path = some content →
    (∃ totals, (load path storage out).2 = .ok totals) → content.length = 44 ∨ content.length = 92

theorem load_of_file {path content : Bytes} {storage : Storage} (hfile : storage path = some content) :
    (load path storage out).2 = loadFile (some content) out := by
  have hreadable : (storage path).isSome := by
    rw [hfile]
    rfl
  rw [load, recover_of_readable hreadable, hfile]

theorem decode_refuses (hrecord : ¬WellFormed record) (out : DnsStatTotals) :
    ∃ why, decode record out = .error why := by
  cases hdecode : decode record out with
  | error why => exact ⟨why, rfl⟩
  | ok totals => exact absurd (wellFormed_of_decode hdecode) hrecord

theorem not_formatExact_append {rest : Bytes} (hrecord : WellFormed record) (hrest : rest ≠ []) :
    ¬FormatExact (record ++ rest) := by
  intro hexact
  obtain ⟨storage, hfile⟩ : ∃ storage : Storage, storage [] = some (record ++ rest) := ⟨fun _ ↦ _, rfl⟩
  have haccepts : Accepts (some (record ++ rest)) {} := accepts_iff.mpr ⟨record, rest, rfl, hrecord⟩
  rw [Accepts, ← load_of_file hfile] at haccepts
  have hwhole := (hexact.acceptsRecords [] storage {} hfile).mp haccepts
  exact hrest (hrecord.eq_nil_of_append hwhole)

/-- The format keeps its promises exactly for the files that are no record with something behind it. -/
theorem formatExact_iff (content : Bytes) :
    FormatExact content ↔ ¬∃ record rest, content = record ++ rest ∧ rest ≠ [] ∧ WellFormed record := by
  constructor
  · rintro hexact ⟨record, rest, rfl, hrest, hrecord⟩
    exact not_formatExact_append hrecord hrest hexact
  · intro hcontent
    have hwhole (path : Bytes) (storage : Storage) (out : DnsStatTotals)
        (hfile : storage path = some content) :
        (∃ totals, (load path storage out).2 = .ok totals) ↔ WellFormed content := by
      rw [load_of_file hfile]
      refine accepts_iff.trans ⟨?_, fun hrecord ↦ ⟨content, [], (append_nil content).symm, hrecord⟩⟩
      rintro ⟨record, rest, rfl, hrecord⟩
      have hrest : rest = [] := by
        by_contra hrest
        exact hcontent ⟨record, rest, rfl, hrest, hrecord⟩
      rwa [hrest, append_nil]
    refine ⟨decode_encode, ?_, ?_, hwhole, ?_⟩
    · intro path storage totals out hfile
      rw [load_of_file hfile]
      have hrecord : WellFormed (encode totals) := .inr (isRecord_encode totals)
      have hcounters : totals = countersOf (encode totals) out :=
        (decode_eq_ok_iff.mp (decode_encode totals out)).2
      exact loadFile_eq_ok_iff.mpr ⟨_, [], (append_nil _).symm, hrecord, hcounters⟩
    · intro record out totals hdecode place byte hplace hbyte
      exact decode_refuses (not_wellFormed_set (wellFormed_of_decode hdecode) hplace hbyte) out
    · intro path storage out hfile haccepts
      exact ((hwhole path storage out hfile).mp haccepts).length

/-- A record with one byte behind it is loaded. -/
theorem longer_file_is_accepted : ¬FormatExact (encode {} ++ [0]) :=
  not_formatExact_append (.inr (isRecord_encode {})) (cons_ne_nil 0 [])

end DhcpServer.Dns.DnsStatStore
