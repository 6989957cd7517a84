import DhcpServer.Dns.RecordGrammar

/-!
# What a cache file is

The header and the records of the three versions, and that `CacheFileReader::read` accepts these
files and no others.
-/

namespace DhcpServer.Dns.CacheFile

open Library InternalCache List

structure WellFormedFile where
  version : UInt32
  reserved : Bytes
  pieces : List (WellFormedRecord version)
  version_ge : kVersionMin ≤ version
  version_le : version ≤ kVersion
  reserved_length : reserved.length = 4
  count_le : pieces.length ≤ kMaxPlausibleRecords

namespace WellFormedFile

def records (file : WellFormedFile) : List CacheFileRecord := file.pieces.map WellFormedRecord.record

def header (file : WellFormedFile) : Bytes :=
  kMagic ++ putU32 file.version ++ putU32 (UInt32.ofNat file.pieces.length) ++ file.reserved

def bytes (file : WellFormedFile) : Bytes := file.header ++ file.pieces.flatMap WellFormedRecord.bytes

end WellFormedFile

theorem readRecords_flatMap_bytes {version : UInt32} (pieces : List (WellFormedRecord version))
    (rest : Bytes) :
    readRecords version pieces.length (pieces.flatMap WellFormedRecord.bytes ++ rest) =
      (pieces.map WellFormedRecord.record, if rest.isEmpty then .ok else .trailingBytes) := by
  induction pieces with
  | nil => rfl
  | cons piece pieces ih =>
    rw [length_cons, flatMap_cons, append_assoc, readRecords, readRecord_bytes]
    simp only [ih, map_cons]

theorem readRecord_ne_error_ok (version : UInt32) (bytes : Bytes) :
    readRecord version bytes ≠ .error .ok := by
  simp only [readRecord, bind, Except.bind, throw, throwThe, MonadExceptOf.throw, pure, Except.pure]
  repeat' split
  all_goals simp

variable {bytes : Bytes}

theorem readRecords_eq_ok {version : UInt32} {count : Nat}
    {records : List CacheFileRecord} (hread : readRecords version count bytes = (records, .ok)) :
    ∃ pieces : List (WellFormedRecord version), pieces.length = count ∧
      bytes = pieces.flatMap WellFormedRecord.bytes := by
  induction count generalizing bytes records with
  | zero =>
    have hempty : bytes.isEmpty := by
      by_contra hrest
      rw [readRecords, if_neg hrest] at hread
      cases hread
    exact ⟨[], rfl, List.isEmpty_iff.mp hempty⟩
  | succ count ih =>
    rw [readRecords] at hread
    split at hread
    · next status hfirst =>
      obtain ⟨-, rfl⟩ := Prod.mk.inj hread
      exact absurd hfirst (readRecord_ne_error_ok version bytes)
    · next record rest hfirst =>
      obtain ⟨piece, -, rfl⟩ := readRecord_eq_ok hfirst
      generalize hothers : readRecords version count rest = others at hread
      obtain ⟨others, status⟩ := others
      obtain ⟨-, rfl⟩ := Prod.mk.inj hread
      obtain ⟨pieces, hlength, rfl⟩ := ih hothers
      exact ⟨piece :: pieces, by rw [length_cons, hlength], by rw [flatMap_cons]⟩

theorem read_bytes (file : WellFormedFile) (rest : Bytes) : read (some (file.bytes ++ rest)) =
      { status := if rest.isEmpty then .ok else .trailingBytes, version := file.version,
        headerCount := file.pieces.length, records := file.records } := by
  have hheader : file.header.length = kHeaderBytes := by
    rw [WellFormedFile.header, length_append, file.reserved_length]
    rfl
  have hmagic : file.header.take kMagic.length = kMagic := by
    rw [WellFormedFile.header, append_assoc, append_assoc, take_left]
  have hversion : getU32 (file.header.drop kVersionOffset) = file.version := by
    have hlength : kMagic.length = kVersionOffset := rfl
    rw [WellFormedFile.header, append_assoc, append_assoc, drop_left' hlength, getU32_putU32]
  have hcount : (getU32 (file.header.drop kCountOffset)).toNat = file.pieces.length := by
    have hlength : (kMagic ++ putU32 file.version).length = kCountOffset := rfl
    have hbound : file.pieces.length ≤ 2000000 := file.count_le
    rw [WellFormedFile.header, append_assoc, drop_left' hlength, getU32_putU32, UInt32.toNat_ofNat']
    omega
  have hknown : ¬ (file.version < kVersionMin ∨ kVersion < file.version) :=
    not_or.mpr ⟨UInt32.not_lt.mpr file.version_ge, UInt32.not_lt.mpr file.version_le⟩
  rw [WellFormedFile.bytes, append_assoc]
  simp only [read, readExact_append hheader, hmagic, hversion, hcount, ne_eq, not_true_eq_false,
    if_false, if_neg hknown, if_neg (not_lt.mpr file.count_le), readRecords_flatMap_bytes]
  rfl

theorem exists_header {header : Bytes} (hlength : header.length = kHeaderBytes) :
    ∃ magic version count reserved, header = magic ++ (putU32 version ++ (putU32 count ++ reserved)) ∧
      magic.length = kMagic.length ∧ reserved.length = 4 := by
  have hsixteen : header.length = 16 := hlength
  refine ⟨header.take 4, getU32 ((header.drop 4).take 4), getU32 ((header.drop 8).take 4),
    header.drop 12, ?_, ?_, ?_⟩
  · have hlast : header.drop 12 = (header.drop 8).drop 4 := by rw [drop_drop]
    have hmiddle : header.drop 8 = (header.drop 4).drop 4 := by rw [drop_drop]
    rw [putU32_getU32 (by simp [hsixteen]), putU32_getU32 (by simp [hsixteen]), hlast,
      take_append_drop, hmiddle, take_append_drop, take_append_drop]
  · rw [length_take, hsixteen]
    rfl
  · rw [length_drop, hsixteen]

theorem read_eq_ok (hok : (read (some bytes)).status = .ok) :
    ∃ file : WellFormedFile, bytes = file.bytes := by
  unfold read at hok
  dsimp only at hok
  split at hok
  case h_1 => cases hok
  next header rest hheader =>
  split at hok
  case isTrue => cases hok
  next hmagic =>
  split at hok
  case isTrue => cases hok
  next hknown =>
  split at hok
  case isTrue => cases hok
  next hbound =>
  obtain ⟨hlength, rfl⟩ := readExact_eq_some hheader
  generalize hrecords : readRecords (getU32 (header.drop kVersionOffset))
    (getU32 (header.drop kCountOffset)).toNat rest = outcome at hok
  obtain ⟨records, status⟩ := outcome
  obtain rfl : status = .ok := hok
  obtain ⟨magic, version, count, reserved, rfl, hfour, hreserved⟩ := exists_header hlength
  have hversion : getU32 ((magic ++ (putU32 version ++ (putU32 count ++ reserved))).drop
      kVersionOffset) = version := by
    have hplace : magic.length = kVersionOffset := hfour
    rw [drop_left' hplace, getU32_putU32]
  have hcount : getU32 ((magic ++ (putU32 version ++ (putU32 count ++ reserved))).drop
      kCountOffset) = count := by
    have height : (magic ++ putU32 version).length = kCountOffset := by
      rw [length_append, hfour]
      rfl
    rw [← append_assoc, drop_left' height, getU32_putU32]
  rw [take_left' hfour, not_not] at hmagic
  rw [hversion] at hknown hrecords
  rw [hcount] at hbound hrecords
  obtain ⟨hge, hle⟩ := not_or.mp hknown
  obtain ⟨pieces, hpieces, rfl⟩ := readRecords_eq_ok hrecords
  have hnumber : UInt32.ofNat pieces.length = count := by
    rw [hpieces, UInt32.ofNat_toNat]
  refine ⟨⟨version, reserved, pieces, UInt32.not_lt.mp hge, UInt32.not_lt.mp hle, hreserved, ?_⟩, ?_⟩
  · rw [hpieces]
    exact not_lt.mp hbound
  · change _ = kMagic ++ putU32 version ++ putU32 (UInt32.ofNat pieces.length) ++ reserved ++ _
    rw [hnumber, hmagic]
    simp only [append_assoc]

theorem read_eq_ok_iff :
    (read (some bytes)).status = .ok ↔ ∃ file : WellFormedFile, bytes = file.bytes := by
  constructor
  · exact read_eq_ok
  · rintro ⟨file, rfl⟩
    have hread := read_bytes file []
    rw [append_nil] at hread
    rw [hread]
    rfl

theorem prefix_refused {start rest : Bytes} (hrest : rest ≠ [])
    (hok : (read (some (start ++ rest))).status = .ok) : (read (some start)).status ≠ .ok := by
  intro hstart
  obtain ⟨file, rfl⟩ := read_eq_ok hstart
  have hsome : rest.isEmpty = false := isEmpty_eq_false_iff.mpr hrest
  rw [read_bytes, hsome] at hok
  cases hok

theorem exists_piece_of_mem_readRecords {version : UInt32} {count : Nat}
    {record : CacheFileRecord} (hmem : record ∈ (readRecords version count bytes).1) :
    ∃ piece : WellFormedRecord version, piece.record = record := by
  induction count generalizing bytes with
  | zero => cases hmem
  | succ count ih =>
    rw [readRecords] at hmem
    split at hmem
    · cases hmem
    · next first rest hfirst =>
      rcases mem_cons.mp hmem with rfl | hlater
      · obtain ⟨piece, hpiece, -⟩ := readRecord_eq_ok hfirst
        exact ⟨piece, hpiece⟩
      · exact ih hlater

theorem exists_piece_of_mem {file : Option Bytes} {record : CacheFileRecord}
    (hmem : record ∈ (read file).records) :
    ∃ version, ∃ piece : WellFormedRecord version, piece.record = record := by
  unfold read at hmem
  split at hmem
  · cases hmem
  · split at hmem
    · cases hmem
    · dsimp only at hmem
      split at hmem
      · cases hmem
      · split at hmem
        · cases hmem
        · split at hmem
          · cases hmem
          · exact ⟨_, exists_piece_of_mem_readRecords hmem⟩

end DhcpServer.Dns.CacheFile
