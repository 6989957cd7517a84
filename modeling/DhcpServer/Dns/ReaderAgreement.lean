import DhcpServer.Dns.CacheRoundTrip
import DhcpServer.Dns.PersistJob

/-!
# The check of a cache file and its restore

Both read the file with `CacheFileReader::read`. The check counts the records of a whole file; the
restore stores whatever whole records it is handed, and a store overwrites the record of its key.
-/

namespace DhcpServer.Dns.CacheFile

open Library InternalCache List Option

variable {arena : Arena} {inet : Inet}

def CacheFileRecord.key (record : CacheFileRecord) : Key := (keyName record.name, record.qtype)

structure Holds (arena : Arena) (keys : Finset Key) : Prop where
  wellFormed : WellFormed arena
  isSome_iff : ∀ key, (arena.recordOf key).isSome = true ↔ key ∈ keys

theorem holds_of_vacant (hvacant : Vacant arena) : Holds arena ∅ := by
  refine ⟨hvacant.wellFormed, fun key ↦ ?_⟩
  rw [hvacant.recordOf]
  simp

variable {keys : Finset Key}

theorem Holds.entries (hholds : Holds arena keys) : arena.entries = keys.card :=
  hholds.wellFormed.entries_eq_card hholds.isSome_iff

theorem Holds.storeInternal (hholds : Holds arena keys) {domain : Bytes}
    {qtype : UInt16} {payload : Payload} (hstorable : Storable domain qtype payload.ips)
    (hroom : (insert (keyName domain, qtype) keys).card ≤ arena.nodeCount) (inet : Inet)
    (now : UInt32) :
    ∃ arena', arena.storeInternal inet domain qtype payload now 0 = some arena' ∧
      arena'.nodeCount = arena.nodeCount ∧ Holds arena' (insert (keyName domain, qtype) keys) := by
  have hwell := hholds.wellFormed
  obtain ⟨arena', index, old, hstore, hstored⟩ := hwell.storeInternal hstorable inet now 0
  have hevicted : arena.evictedFor (keyName domain, qtype) now = none := by
    by_cases hpresent : (keyName domain, qtype) ∈ keys
    · have hfound := (hholds.isSome_iff _).mpr hpresent
      rw [Arena.evictedFor, if_pos hfound]
    · have hfree : arena.freeHead.isSome = true := by
        apply hwell.freeHead_isSome
        rw [hholds.entries]
        rw [Finset.card_insert_of_notMem hpresent] at hroom
        exact hroom
      simp [Arena.evictedFor, Arena.evicted, hfree]
  refine ⟨arena', hstore, hstored.change.nodeCount, hstored.change.wellFormed, fun key ↦ ?_⟩
  rw [Finset.mem_insert]
  by_cases hkey : key = (keyName domain, qtype)
  · rw [hkey, hstored.recordOf_self]
    simp
  · rw [hstored.recordOf_other hwell hkey, hevicted, map_none, ← hholds.isSome_iff]
    simp [withoutKey, hkey]

/-- The store takes the record: it is well formed and its name is below the limit of the store. -/
theorem storable_of_piece {version : UInt32} (piece : WellFormedRecord version)
    (hname : piece.record.name.length ≠ kMaxNameBytes) (inet : Inet) :
    Storable piece.record.name piece.record.qtype (piece.record.texts inet) := by
  constructor
  · exact ne_nil_of_length_pos piece.name_pos
  · apply ne_nil_of_length_pos
    have hpos := piece.addrs_pos
    rw [CacheFileRecord.texts]
    split
    · rwa [length_map]
    · rwa [length_map]
  · rcases piece.family with ⟨htype, -⟩ | ⟨htype, -⟩
    · exact .inl htype
    · exact .inr htype
  · have hle := piece.name_le
    rw [lower, length_map]
    exact lt_of_le_of_ne hle hname

theorem Holds.restoreRecords {records : List CacheFileRecord}
    (hholds : Holds arena keys)
    (hstorable : ∀ record ∈ records, Storable record.name record.qtype (record.texts inet))
    (hroom : (keys ∪ (records.map CacheFileRecord.key).toFinset).card ≤ arena.nodeCount)
    (clock : Nat → UInt32) :
    ∃ loaded, restoreRecords inet clock records arena = some loaded ∧
      Holds loaded (keys ∪ (records.map CacheFileRecord.key).toFinset) := by
  induction records generalizing arena keys with
  | nil =>
    refine ⟨arena, rfl, ?_⟩
    rw [map_nil, toFinset_nil, Finset.union_empty]
    exact hholds
  | cons record records ih =>
    rw [forall_mem_cons] at hstorable
    have hkeys : keys ∪ ((record :: records).map CacheFileRecord.key).toFinset =
        insert record.key keys ∪ (records.map CacheFileRecord.key).toFinset := by
      rw [map_cons, toFinset_cons, Finset.union_insert, Finset.insert_union]
    rw [hkeys] at hroom ⊢
    have hfirst : (insert record.key keys).card ≤ arena.nodeCount :=
      (Finset.card_le_card Finset.subset_union_left).trans hroom
    have htaken : Storable record.name record.qtype (restorePayload inet record).ips := hstorable.1
    obtain ⟨stored, hstore, hcount, hstored⟩ :=
      hholds.storeInternal htaken hfirst inet (clock records.length)
    obtain ⟨loaded, hrestore, hloaded⟩ := ih hstored hstorable.2 (hcount ▸ hroom)
    refine ⟨loaded, ?_, hloaded⟩
    rw [CacheFile.restoreRecords]
    change (arena.storeInternal inet record.name record.qtype (restorePayload inet record)
      (clock records.length) 0).bind _ = _
    rw [hstore, bind_some, hrestore]

def recordKeys (file : Option Bytes) : List Key := (read file).records.map CacheFileRecord.key

theorem loadFromFile_spec (hvacant : Vacant arena) (inet : Inet) (clock : Nat → UInt32)
    (file : Option Bytes) (hnames : ∀ record ∈ (read file).records, record.name.length ≠ kMaxNameBytes)
    (hroom : (recordKeys file).toFinset.card ≤ arena.nodeCount) :
    ∃ loaded, loadFromFile inet clock file arena = some (loaded, (read file).records.length) ∧
      Holds loaded (recordKeys file).toFinset := by
  have hstorable : ∀ record ∈ (read file).records,
      Storable record.name record.qtype (record.texts inet) := by
    intro record hmem
    obtain ⟨version, piece, rfl⟩ := exists_piece_of_mem hmem
    exact storable_of_piece piece (hnames _ hmem) inet
  have hempty := holds_of_vacant hvacant
  rw [← Finset.empty_union (recordKeys file).toFinset] at hroom ⊢
  obtain ⟨loaded, hrestore, hloaded⟩ := hempty.restoreRecords hstorable hroom clock
  refine ⟨loaded, ?_, hloaded⟩
  simp only [loadFromFile, hrestore, bind_eq_bind, bind_some]
  rfl

theorem check_iff {bytes : Bytes} {count : Nat} : check (some bytes) count ↔
      (read (some bytes)).status = .ok ∧ (read (some bytes)).records.length = count := by
  rw [check, Bool.and_eq_true, decide_eq_true_iff, decide_eq_true_iff]

theorem check_bytes (file : WellFormedFile) (count : Nat) :
    check (some file.bytes) count ↔ file.pieces.length = count := by
  have hread := read_bytes file []
  rw [append_nil] at hread
  rw [check_iff, hread, WellFormedFile.records, length_map]
  exact and_iff_right rfl

/-- The reader accepts whole files only, without their last bytes they are refused, the check counts
their records, and a load leaves a record for each key of the whole records read. -/
theorem read_check_load (bytes : Bytes) :
    ((read (some bytes)).status = .ok ↔ ∃ file : WellFormedFile, bytes = file.bytes) ∧
    (∀ file : WellFormedFile, bytes = file.bytes → (read (some bytes)).records = file.records) ∧
    (∀ start rest, bytes = start ++ rest → rest ≠ [] → (read (some bytes)).status = .ok →
      (read (some start)).status ≠ .ok) ∧
    (∀ count, check (some bytes) count = true ↔
      ∃ file : WellFormedFile, bytes = file.bytes ∧ file.pieces.length = count) ∧
    ((∀ record ∈ (read (some bytes)).records, record.name.length ≠ kMaxNameBytes) →
      ∀ (inet : Inet) (clock : Nat → UInt32) (fresh : Arena), Vacant fresh →
        (recordKeys (some bytes)).toFinset.card ≤ fresh.nodeCount →
        ∃ loaded, loadFromFile inet clock (some bytes) fresh =
            some (loaded, (read (some bytes)).records.length) ∧
          (∀ key, (loaded.recordOf key).isSome = true ↔ key ∈ recordKeys (some bytes)) ∧
          loaded.entries = (recordKeys (some bytes)).toFinset.card ∧
          ((read (some bytes)).status = .ok → (recordKeys (some bytes)).Nodup →
            ∀ count, check (some bytes) count = true ↔ loaded.entries = count)) := by
  refine ⟨read_eq_ok_iff, ?_, ?_, ?_, ?_⟩
  · rintro file rfl
    have hread := read_bytes file []
    rw [append_nil] at hread
    rw [hread]
  · rintro start rest rfl hrest hok
    exact prefix_refused hrest hok
  · intro count
    constructor
    · intro hcheck
      obtain ⟨file, rfl⟩ := read_eq_ok (check_iff.mp hcheck).1
      exact ⟨file, rfl, (check_bytes file count).mp hcheck⟩
    · rintro ⟨file, rfl, hlength⟩
      exact (check_bytes file count).mpr hlength
  · intro hnames inet clock fresh hvacant hroom
    obtain ⟨loaded, hload, hholds⟩ := loadFromFile_spec hvacant inet clock (some bytes) hnames hroom
    refine ⟨loaded, hload, ?_, hholds.entries, ?_⟩
    · intro key
      rw [hholds.isSome_iff, List.mem_toFinset]
    · intro hok hdistinct count
      rw [check_iff, hholds.entries, toFinset_card_of_nodup hdistinct, recordKeys, length_map]
      exact and_iff_right hok

def sampleRecord (name : Bytes) : CacheFileRecord := ⟨name, kTypeA, 60, 1, [[1, 2, 3, 4]]⟩

def samplePiece (name : Bytes) (hpos : 0 < name.length) (hle : name.length ≤ kMaxNameBytes) :
    WellFormedRecord kVersion where
  record := sampleRecord name
  others := 0
  name_pos := hpos
  name_le := hle
  uses_lt := show 1 < usesLimit kVersion by decide
  addrs_pos := Nat.one_pos
  family := .inl ⟨rfl, show 1 ≤ kMaxA by decide, Nat.zero_le _, by simp [sampleRecord, kBytesPerIpv4]⟩

def sampleFile (pieces : List (WellFormedRecord kVersion)) (hbound : pieces.length ≤ 10) :
    WellFormedFile where
  version := kVersion
  reserved := putU32 0
  pieces := pieces
  version_ge := by decide
  version_le := by decide
  reserved_length := rfl
  count_le := hbound.trans (by decide)

theorem loadFromFile_refused {file : Option Bytes} {record : CacheFileRecord}
    (hread : (read file).records = [record])
    (hrefused : ¬ Storable record.name record.qtype (restorePayload inet record).ips) (arena : Arena)
    (clock : Nat → UInt32) : loadFromFile inet clock file arena = some (arena, 1) := by
  have hstore : arena.storeInternal inet record.name record.qtype (restorePayload inet record)
      (clock 0) 0 = some arena := storeInternal_not_storable hrefused (clock 0) 0
  rw [loadFromFile, hread]
  change (((arena.storeInternal inet record.name record.qtype (restorePayload inet record)
    (clock 0) 0).bind _).bind _) = _
  rw [hstore]
  rfl

def shortPiece : WellFormedRecord kVersion := samplePiece [0x61] (by decide) (by decide)

def longPiece : WellFormedRecord kVersion :=
  samplePiece (List.replicate 127 0x61) (by rw [length_replicate]; decide)
    (by rw [length_replicate]; decide)

def singleFile : WellFormedFile := sampleFile [shortPiece] (by decide)

/-- A file of one record. -/
theorem read_check_load_single : check (some singleFile.bytes) 1 = true ∧
      ∃ fresh loaded, Vacant fresh ∧
        loadFromFile sampleInet (fun _ ↦ 0) (some singleFile.bytes) fresh = some (loaded, 1) ∧
        loaded.entries = 1 := by
  obtain ⟨fresh, -, hvacant, hcount⟩ := exists_enabled
  obtain ⟨-, hrecords, -, hcheck, hload⟩ := read_check_load singleFile.bytes
  have hread : (read (some singleFile.bytes)).records = [sampleRecord [0x61]] := hrecords singleFile rfl
  have hkeys : recordKeys (some singleFile.bytes) = [([0x61], kTypeA)] := by
    rw [recordKeys, hread]
    rfl
  rw [hread, hkeys] at hload
  obtain ⟨loaded, hloaded, -, hentries, -⟩ := hload (by decide) sampleInet (fun _ ↦ 0) fresh hvacant
    (hcount ▸ by decide)
  exact ⟨(hcheck 1).mpr ⟨singleFile, rfl, rfl⟩, fresh, loaded, hvacant, hloaded, hentries⟩

def repeatedFile : WellFormedFile := sampleFile [shortPiece, shortPiece] (by decide)

def longFile : WellFormedFile := sampleFile [longPiece] (by decide)

def tornBytes : Bytes := headerBytes 2 ++ shortPiece.bytes

theorem read_headerBytes_huge (rest : Bytes) :
    (read (some (headerBytes 2000001 ++ rest))).status = .implausibleCount := by
  have hheader : (headerBytes 2000001).length = kHeaderBytes := rfl
  simp only [read, readExact_append hheader]
  rfl

/-- As many records as the header says, one more than the reader takes for plausible. -/
def hugeBytes : Bytes :=
  headerBytes 2000001 ++ (List.replicate 2000001 shortPiece).flatMap WellFormedRecord.bytes

/-- The check counts the records of a key twice, and does not know that the store refuses the longest
names; a torn file is restored as far as it goes; and there is a bound on the number of records. -/
theorem check_differs_from_load : (∃ fresh loaded, Vacant fresh ∧ 2 ≤ fresh.nodeCount ∧
      loadFromFile sampleInet (fun _ ↦ 0) (some repeatedFile.bytes) fresh = some (loaded, 2) ∧
      check (some repeatedFile.bytes) 2 = true ∧ loaded.entries = 1) ∧
    (∃ fresh loaded, Vacant fresh ∧ 2 ≤ fresh.nodeCount ∧
      loadFromFile sampleInet (fun _ ↦ 0) (some tornBytes) fresh = some (loaded, 1) ∧
      check (some tornBytes) 1 = false ∧ loaded.entries = 1) ∧
    (∃ fresh loaded, Vacant fresh ∧ 2 ≤ fresh.nodeCount ∧
      loadFromFile sampleInet (fun _ ↦ 0) (some longFile.bytes) fresh = some (loaded, 1) ∧
      check (some longFile.bytes) 1 = true ∧ loaded.entries = 0) ∧
    (read (some hugeBytes)).status = .implausibleCount := by
  obtain ⟨fresh, -, hvacant, hcount⟩ := exists_enabled
  have hroom : 2 ≤ fresh.nodeCount := hcount ▸ by decide
  refine ⟨?_, ?_, ?_, ?_⟩
  · have hread : (read (some repeatedFile.bytes)).records = [sampleRecord [0x61], sampleRecord [0x61]] := by
      have hall := read_bytes repeatedFile []
      rw [append_nil] at hall
      rw [hall]
      rfl
    have hkeys : recordKeys (some repeatedFile.bytes) = [([0x61], kTypeA), ([0x61], kTypeA)] := by
      rw [recordKeys, hread]
      rfl
    obtain ⟨loaded, hload, hholds⟩ := loadFromFile_spec hvacant sampleInet (fun _ ↦ 0)
      (some repeatedFile.bytes) (by rw [hread]; decide) (by rw [hkeys, hcount]; decide)
    rw [hread] at hload
    rw [hkeys] at hholds
    exact ⟨fresh, loaded, hvacant, hroom, hload, (check_bytes repeatedFile 2).mpr rfl, hholds.entries⟩
  · have hread : read (some tornBytes) =
        { status := .truncated, version := kVersion, headerCount := 2,
          records := [sampleRecord [0x61]] } := by
      decide +kernel
    have hkeys : recordKeys (some tornBytes) = [([0x61], kTypeA)] := by
      rw [recordKeys, hread]
      rfl
    obtain ⟨loaded, hload, hholds⟩ := loadFromFile_spec hvacant sampleInet (fun _ ↦ 0)
      (some tornBytes) (by rw [hread]; decide) (by rw [hkeys, hcount]; decide)
    rw [hread] at hload
    rw [hkeys] at hholds
    refine ⟨fresh, loaded, hvacant, hroom, hload, ?_, hholds.entries⟩
    rw [check, hread]
    rfl
  · have hread : (read (some longFile.bytes)).records = [sampleRecord (List.replicate 127 0x61)] := by
      have hall := read_bytes longFile []
      rw [append_nil] at hall
      rw [hall]
      rfl
    have hrefused : ¬ Storable (List.replicate 127 0x61) kTypeA
        (restorePayload sampleInet (sampleRecord (List.replicate 127 0x61))).ips := by
      intro hstorable
      have hlength := hstorable.length_lt
      rw [lower, length_map, length_replicate] at hlength
      exact absurd hlength (by decide)
    refine ⟨fresh, fresh, hvacant, hroom, ?_, (check_bytes longFile 1).mpr rfl, hvacant.entries⟩
    exact loadFromFile_refused hread hrefused fresh fun _ ↦ 0
  · exact read_headerBytes_huge _

end DhcpServer.Dns.CacheFile
