import DhcpServer.Dns.CacheHistory
import DhcpServer.Dns.CacheRecords
import DhcpServer.Dns.FileGrammar

/-!
# Saving the built-in cache and loading it again

What `saveToFile` writes, `loadFromFile` puts into an empty cache that is large enough, record by
record and without evicting anything.
-/

/-!
## Reading back a cache file

What the writer makes of sane nodes is a well-formed file, so the reader gets from it the records
that were written.
-/

namespace DhcpServer.Dns.CacheFile

open Library InternalCache
open List hiding Vector

variable {node : Node} {ignoreTtl : Bool} {now : UInt32}

def addressList (node : Node) : List Bytes :=
  (node.a4.toList.take node.nA).map Vector.toList ++
    (node.a6.toList.take node.nAaaa).map Vector.toList

def fileRecord (ignoreTtl : Bool) (now : UInt32) (node : Node) : CacheFileRecord :=
  ⟨node.name, node.qtype, savedTtl ignoreTtl now node, node.uses.toNat, addressList node⟩

theorem addressBytes_eq (node : Node) : addressBytes node = (addressList node).flatten := by
  simp [addressBytes, addressList, flatMap_def]

theorem length_addresses {width room count : Nat} (addresses : Vector (Vector UInt8 width) room)
    (hcount : count ≤ room) :
    ((addresses.toList.take count).map Vector.toList).length = count ∧
      ∀ addr ∈ (addresses.toList.take count).map Vector.toList, addr.length = width := by
  constructor
  · rw [length_map, length_take, Vector.length_toList, Nat.min_eq_left hcount]
  · intro addr haddr
    obtain ⟨address, -, rfl⟩ := mem_map.mp haddr
    exact address.length_toList

theorem exists_piece (hsane : Sane node) (hname : node.name ≠ []) (ignoreTtl : Bool) (now : UInt32) :
    ∃ piece : WellFormedRecord kVersion, piece.record = fileRecord ignoreTtl now node ∧
      piece.bytes = recordBytes ignoreTtl now node := by
  have hne : kTypeAaaa ≠ kTypeA := by decide
  have hpos : 0 < node.name.length := length_pos_of_ne_nil hname
  have hle : node.name.length ≤ kMaxNameBytes := Nat.le_of_lt hsane.length_lt
  have huses : node.uses.toNat < usesLimit kVersion := node.uses.toNat_lt
  have hbytes (piece : WellFormedRecord kVersion)
      (hrecord : piece.record = fileRecord ignoreTtl now node) (hA : piece.countA = node.nA)
      (hAaaa : piece.countAaaa = node.nAaaa) : piece.bytes = recordBytes ignoreTtl now node := by
    have hword : usesBytes kVersion node.uses.toNat = putU32 node.uses := by
      change putU32 (UInt32.ofNat node.uses.toNat) = _
      rw [UInt32.ofNat_toNat]
    rw [WellFormedRecord.bytes, WellFormedRecord.tail, hA, hAaaa, hrecord, recordBytes,
      addressBytes_eq, ← hword]
    rfl
  rcases hsane.counts with ⟨htype, hsome, hroom, hnone⟩ | ⟨htype, hnone, hsome, hroom⟩
  · have haddrs : addressList node = (node.a4.toList.take node.nA).map Vector.toList := by
      rw [addressList, hnone, take_zero, map_nil, append_nil]
    obtain ⟨hlength, hwidths⟩ := length_addresses node.a4 hroom
    rw [← haddrs] at hlength hwidths
    let piece : WellFormedRecord kVersion :=
      { record := fileRecord ignoreTtl now node, others := 0, name_pos := hpos, name_le := hle,
        uses_lt := huses, addrs_pos := hlength.symm ▸ hsome,
        family := .inl ⟨htype, hlength.symm ▸ hroom, Nat.zero_le _, hwidths⟩ }
    refine ⟨piece, rfl, hbytes piece rfl ?_ ?_⟩
    · exact (if_pos htype).trans hlength
    · exact (if_pos htype).trans hnone.symm
  · have haddrs : addressList node = (node.a6.toList.take node.nAaaa).map Vector.toList := by
      rw [addressList, hnone, take_zero, map_nil, nil_append]
    have hother : ¬ node.qtype = kTypeA := htype ▸ hne
    obtain ⟨hlength, hwidths⟩ := length_addresses node.a6 hroom
    rw [← haddrs] at hlength hwidths
    let piece : WellFormedRecord kVersion :=
      { record := fileRecord ignoreTtl now node, others := 0, name_pos := hpos, name_le := hle,
        uses_lt := huses, addrs_pos := hlength.symm ▸ hsome,
        family := .inr ⟨htype, hlength.symm ▸ hroom, Nat.zero_le _, hwidths⟩ }
    refine ⟨piece, rfl, hbytes piece rfl ?_ ?_⟩
    · exact (if_neg hother).trans hnone.symm
    · exact (if_neg hother).trans hlength

theorem exists_pieces {nodes : List Node} (hsane : ∀ node ∈ nodes, Sane node)
    (hnames : ∀ node ∈ nodes, node.name ≠ []) (ignoreTtl : Bool) (now : UInt32) :
    ∃ pieces : List (WellFormedRecord kVersion),
      pieces.map WellFormedRecord.record = nodes.map (fileRecord ignoreTtl now) ∧
      pieces.flatMap WellFormedRecord.bytes = nodes.flatMap (recordBytes ignoreTtl now) := by
  induction nodes with
  | nil => exact ⟨[], rfl, rfl⟩
  | cons node nodes ih =>
    simp only [forall_mem_cons] at hsane hnames
    obtain ⟨piece, hrecord, hbytes⟩ := exists_piece hsane.1 hnames.1 ignoreTtl now
    obtain ⟨pieces, hrecords, hothers⟩ := ih hsane.2 hnames.2
    refine ⟨piece :: pieces, ?_, ?_⟩
    · rw [map_cons, map_cons, hrecord, hrecords]
    · rw [flatMap_cons, flatMap_cons, hbytes, hothers]

theorem read_fileBytes {nodes : List Node} (hsane : ∀ node ∈ nodes, Sane node)
    (hnames : ∀ node ∈ nodes, node.name ≠ []) (hcount : nodes.length ≤ kMaxPlausibleRecords) :
    read (some (headerBytes nodes.length ++ nodes.flatMap (recordBytes ignoreTtl now))) =
      { status := .ok, version := kVersion, headerCount := nodes.length,
        records := nodes.map (fileRecord ignoreTtl now) } := by
  obtain ⟨pieces, hrecords, hbytes⟩ := exists_pieces hsane hnames ignoreTtl now
  have hlength : pieces.length = nodes.length := by
    simpa using congrArg List.length hrecords
  let file : WellFormedFile :=
    { version := kVersion, reserved := putU32 0, pieces := pieces, version_ge := by decide,
      version_le := by decide, reserved_length := rfl, count_le := hlength.symm ▸ hcount }
  have hfile : file.bytes = headerBytes nodes.length ++ nodes.flatMap (recordBytes ignoreTtl now) := by
    rw [← hbytes, ← hlength]
    rfl
  have hread := read_bytes file []
  rw [append_nil, hfile] at hread
  rw [hread]
  change CacheFileRead.mk .ok kVersion pieces.length (pieces.map WellFormedRecord.record) = _
  rw [hlength, hrecords]

end DhcpServer.Dns.CacheFile

namespace DhcpServer.Dns.CacheFile

open Library InternalCache Option
open List hiding Vector

variable {arena arena' target : Arena} {inet : Inet} {ignoreTtl : Bool} {now : UInt32} {node : Node}

theorem foldl_keep {Item : Type} (keep : Item → Bool) (items kept : List Item) :
    items.foldl (fun kept item ↦ if keep item then kept ++ [item] else kept) kept =
      kept ++ items.filter keep := by
  induction items generalizing kept with
  | nil => simp
  | cons item items ih =>
    rw [foldl_cons, ih, filter_cons]
    split <;> simp

theorem snapshot_spec (hwell : WellFormed arena) (ignoreTtl : Bool) (now : UInt32) :
    ∃ kept, snapshot ignoreTtl now arena = some kept ∧ kept.Nodup ∧ (∀ index, index ∈ kept ↔
        arena.Chained index ∧ keepsNode ignoreTtl now (arena.nodes index)) ∧
      kept.length ≤ arena.nodeCount := by
  obtain ⟨chains, free, hlayout⟩ := hwell
  let members := allMembers arena.numBuckets chains
  let keep := fun index ↦ keepsNode ignoreTtl now (arena.nodes index)
  have hfold := foldAll_members hlayout.chain (fun _ ↦ hlayout.length_le)
    (fun kept index ↦ if keep index then kept ++ [index] else kept) []
  have hmembers : members.foldl (fun kept index ↦ if keep index then kept ++ [index] else kept) [] =
      members.filter keep := by
    rw [foldl_keep, nil_append]
  have hnodup : members.Nodup := hlayout.nodup_members
  refine ⟨members.filter keep, hfold.trans (congrArg some hmembers), hnodup.filter _, ?_, ?_⟩
  · intro index
    rw [mem_filter, hlayout.chained_iff]
  · have hpool := hlayout.pool.length_eq
    simp only [nil_append, length_append, length_range] at hpool
    have hmembers : (members.filter keep).length ≤ (allMembers arena.numBuckets chains).length :=
      length_filter_le _ _
    omega

theorem saveToFile_eq (htidy : Tidy arena) (ignoreTtl : Bool) (now : UInt32) :
    ∃ kept : List Nat, kept.Nodup ∧ (∀ index, index ∈ kept ↔
        arena.Chained index ∧ keepsNode ignoreTtl now (arena.nodes index)) ∧
      kept.length ≤ arena.nodeCount ∧
      saveToFile ignoreTtl now arena = some (if kept = [] then none else
        some (headerBytes (kept.map arena.nodes).length ++
          (kept.map arena.nodes).flatMap (recordBytes ignoreTtl now), kept.length)) := by
  obtain ⟨kept, hsnapshot, hnodup, hkept, hlength⟩ := snapshot_spec htidy.wellFormed ignoreTtl now
  refine ⟨kept, hnodup, hkept, hlength, ?_⟩
  have hwrites : (kept.map arena.nodes).filter writesNode = kept.map arena.nodes := by
    apply filter_eq_self.mpr
    intro node hnode
    obtain ⟨index, hindex, rfl⟩ := List.mem_map.mp hnode
    obtain ⟨hchained, hkeeps⟩ := (hkept index).mp hindex
    have hshort : (arena.nodes index).name.length < 127 := (htidy.sane index hchained).length_lt
    rw [keepsNode, Bool.and_eq_true] at hkeeps
    rw [writesNode, Bool.and_eq_true]
    exact ⟨hkeeps.1, decide_eq_true (Nat.le_of_lt hshort)⟩
  rw [saveToFile, hsnapshot]
  simp only [bind_eq_bind, bind_some, fileBytes, hwrites, List.isEmpty_iff, length_map]
  split <;> rfl

/-! ## Restoring one record -/

/-- `inet_pton` undoes `inet_ntop`. -/
structure Inverse (inet : Inet) : Prop where
  v4 : ∀ address, inet.pton4 (cString (inet.ntop4 address)) = some address
  v6 : ∀ address, inet.pton6 (cString (inet.ntop6 address)) = some address

theorem rawAddress_toList {width : Nat} (address : Vector UInt8 width) :
    rawAddress width address.toList = address := by
  apply Vector.ext
  intro i hi
  simp [rawAddress]

theorem fillAddresses_ntop {Address : Type} {room : Nat} {pton : Bytes → Option Address}
    {ntop : Address → Bytes} (hinverse : ∀ address, pton (cString (ntop address)) = some address)
    (old : Vector Address room) {addresses : List Address} (hroom : addresses.length ≤ room) :
    (fillAddresses pton old (addresses.map ntop)).toList.take
      (addressCount room (addresses.map ntop)) = addresses := by
  apply ext_getElem
  · simp [addressCount, hroom]
  · intro i hleft hright
    simp [fillAddresses, hright, hinverse]

theorem texts_fileRecord (hsane : Sane node) (inet : Inet) (ignoreTtl : Bool) (now : UInt32) :
    (fileRecord ignoreTtl now node).texts inet =
      if node.qtype = kTypeA then (node.a4.toList.take node.nA).map inet.ntop4
      else (node.a6.toList.take node.nAaaa).map inet.ntop6 := by
  have hne : kTypeA ≠ kTypeAaaa := by decide
  rcases hsane.counts with ⟨htype, -, -, hnone⟩ | ⟨htype, hnone, -, -⟩
  · simp [CacheFileRecord.texts, fileRecord, addressList, htype, hnone, hne, Function.comp_def,
      rawAddress_toList]
  · simp [CacheFileRecord.texts, fileRecord, addressList, htype, hnone, hne.symm, Function.comp_def,
      rawAddress_toList]

/-- The record of the target is the one of the source: same name and type, same addresses and
counter, stored now with the given lifetime. -/
structure Restored (now ttl : UInt32) (node restored : Node) : Prop where
  key : restored.key = node.key
  addresses : addressList restored = addressList node
  uses : restored.uses = node.uses
  storedMs : restored.storedMs = now
  ttl : restored.ttl = ttl

theorem clampUses_toNat (uses : UInt32) : clampUses uses.toNat = uses := by
  have hmax : uses.toNat ≤ kUsesMax.toNat := Nat.le_of_lt_succ uses.toNat_lt
  rw [clampUses, if_pos hmax, UInt32.ofNat_toNat]

def restorePayload (inet : Inet) (record : CacheFileRecord) : Payload :=
  ⟨record.texts inet, record.ttlRemaining, some record.uses⟩

theorem restored_written (hinverse : Inverse inet) (hsane : Sane node) (ignoreTtl : Bool)
    (now : UInt32) {old : Node} (hkey : old.key = node.key) :
    Restored now (savedTtl ignoreTtl now node) node
      (old.written inet (restorePayload inet (fileRecord ignoreTtl now node)) now) := by
  have hfields := sameButAddresses_withAddresses
    { old with storedMs := now, ttl := savedTtl ignoreTtl now node } inet
    ((fileRecord ignoreTtl now node).texts inet)
  have hne : kTypeAaaa ≠ kTypeA := by decide
  have hqtype : old.qtype = node.qtype := congrArg Prod.snd hkey
  constructor
  case key => rw [written_key, hkey]
  case uses => exact clampUses_toNat node.uses
  case storedMs => exact hfields.storedMs
  case ttl => exact hfields.ttl
  case addresses =>
    have htexts := texts_fileRecord hsane inet ignoreTtl now
    rcases hsane.counts with ⟨htype, -, hle, hnone⟩ | ⟨htype, hnone, -, hle⟩
    · rw [if_pos htype] at htexts
      have hroom : (node.a4.toList.take node.nA).length ≤ kMaxA :=
        (length_take_le' _ _).trans_eq node.a4.length_toList
      simp only [addressList, Node.written, Node.withAddresses, restorePayload, htexts, hqtype, htype,
        if_true, hnone, take_zero, map_nil, append_nil,
        fillAddresses_ntop hinverse.v4 old.a4 hroom]
    · rw [if_neg (htype ▸ hne)] at htexts
      have hroom : (node.a6.toList.take node.nAaaa).length ≤ kMaxAaaa :=
        (length_take_le' _ _).trans_eq node.a6.length_toList
      simp only [addressList, Node.written, Node.withAddresses, restorePayload, htexts, hqtype, htype,
        hne, if_false, hnone, take_zero, map_nil, nil_append,
        fillAddresses_ntop hinverse.v6 old.a6 hroom]

theorem storable_fileRecord (hsane : Sane node) (hname : node.name ≠ []) (inet : Inet) :
    Storable node.name node.qtype ((fileRecord ignoreTtl now node).texts inet) := by
  have hne : kTypeAaaa ≠ kTypeA := by decide
  have htexts := texts_fileRecord hsane inet ignoreTtl now
  refine ⟨hname, ?_, ?_, by rw [hsane.lowered]; exact hsane.length_lt⟩
  · rw [htexts]
    apply ne_nil_of_length_pos
    rcases hsane.counts with ⟨htype, hpos, hle, -⟩ | ⟨htype, -, hpos, hle⟩
    · rw [if_pos htype]
      simp only [length_map, length_take, Vector.length_toList]
      exact lt_min hpos (by decide)
    · rw [if_neg (htype ▸ hne)]
      simp only [length_map, length_take, Vector.length_toList]
      exact lt_min hpos (by decide)
  · rcases hsane.counts with ⟨htype, -⟩ | ⟨htype, -⟩
    · exact .inl htype
    · exact .inr htype

theorem keyName_of_sane (hsane : Sane node) : keyName node.name = node.name := by
  rw [keyName, hsane.lowered, cString_eq_self hsane.zeroFree]

theorem restore_one (hinverse : Inverse inet) (hwell : WellFormed arena) (hsane : Sane node)
    (hname : node.name ≠ []) (hnew : arena.recordOf node.key = none)
    (hroom : arena.entries < arena.nodeCount) (ignoreTtl : Bool) (now : UInt32) :
    ∃ arena', arena.storeInternal inet node.name node.qtype
        (restorePayload inet (fileRecord ignoreTtl now node)) now 0 = some arena' ∧
      WellFormed arena' ∧ arena'.nodeCount = arena.nodeCount ∧
      arena'.entries = arena.entries + 1 ∧
      (∃ restored, arena'.recordOf node.key = some restored ∧
        Restored now (savedTtl ignoreTtl now node) node restored) ∧
      ∀ key ≠ node.key, arena'.recordOf key = arena.recordOf key := by
  have hstorable : Storable node.name node.qtype
      (restorePayload inet (fileRecord ignoreTtl now node)).ips :=
    storable_fileRecord hsane hname inet
  obtain ⟨arena', index, old, hstore, hstored⟩ := hwell.storeInternal hstorable inet now 0
  rw [keyName_of_sane hsane] at hstored
  have hevicted : arena.evictedFor node.key now = none := by
    have hfree := hwell.freeHead_isSome hroom
    simp [Arena.evictedFor, hnew, Arena.evicted, hfree]
  have hrestored := restored_written hinverse hsane ignoreTtl now hstored.key_eq
  refine ⟨arena', hstore, hstored.change.wellFormed, hstored.change.nodeCount,
    hstored.entries hwell hnew hevicted, ⟨_, hstored.recordOf_self, ?_⟩, ?_⟩
  · exact ⟨hrestored.key, hrestored.addresses, hrestored.uses, hrestored.storedMs, hrestored.ttl⟩
  · intro key hkey
    rw [hstored.recordOf_other hwell hkey]
    change withoutKey _ ((arena.evictedFor node.key now).map _) key = _
    rw [hevicted]
    simp [withoutKey]

theorem restoreRecords_spec (hinverse : Inverse inet) (ignoreTtl : Bool) (now : UInt32)
    {nodes : List Node} (hsane : ∀ node ∈ nodes, Sane node)
    (hnames : ∀ node ∈ nodes, node.name ≠ []) (hkeys : (nodes.map Node.key).Nodup)
    (hwell : WellFormed arena) (hnew : ∀ node ∈ nodes, arena.recordOf node.key = none)
    (hroom : arena.entries + nodes.length ≤ arena.nodeCount) :
    ∃ arena', restoreRecords inet (fun _ ↦ now) (nodes.map (fileRecord ignoreTtl now)) arena =
        some arena' ∧
      (∀ node ∈ nodes, ∃ restored, arena'.recordOf node.key = some restored ∧
        Restored now (savedTtl ignoreTtl now node) node restored) ∧
      ∀ key ∉ nodes.map Node.key, arena'.recordOf key = arena.recordOf key := by
  induction nodes generalizing arena with
  | nil => exact ⟨arena, rfl, by simp, fun _ _ ↦ rfl⟩
  | cons node nodes ih =>
    simp only [map_cons, nodup_cons] at hkeys
    simp only [length_cons] at hroom
    simp only [forall_mem_cons] at hsane hnames hnew
    obtain ⟨stored, hstore, hstored, hcount, hentries, hfirst, hothers⟩ :=
      restore_one hinverse hwell hsane.1 hnames.1 hnew.1 (by omega) ignoreTtl now
    have hnew' : ∀ other ∈ nodes, stored.recordOf other.key = none := by
      intro other hother
      rw [hothers other.key fun heq ↦ hkeys.1 (heq ▸ mem_map_of_mem hother)]
      exact hnew.2 other hother
    obtain ⟨arena', hrestore, hpresent, hkept⟩ := ih hsane.2 hnames.2 hkeys.2 hstored hnew' (by omega)
    refine ⟨arena', ?_, ?_, ?_⟩
    · rw [map_cons, restoreRecords]
      change (arena.storeInternal inet node.name node.qtype
        (restorePayload inet (fileRecord ignoreTtl now node)) now 0).bind _ = _
      rw [hstore, bind_some, hrestore]
    · simp only [forall_mem_cons]
      refine ⟨?_, hpresent⟩
      rw [hkept node.key hkeys.1]
      exact hfirst
    · intro key hkey
      simp only [map_cons, mem_cons, not_or] at hkey
      rw [hkept key hkey.2, hothers key hkey.1]

/-! ## The round trip -/

def Live (ignoreTtl : Bool) (now : UInt32) (node : Node) : Prop :=
  ignoreTtl = true ∨ node.expired now = false

theorem keepsNode_iff : keepsNode ignoreTtl now node ↔ node.name ≠ [] ∧ Live ignoreTtl now node := by
  simp [keepsNode, Live]

/-- Saving and loading into `target` at the same moment gives the unexpired records, each with the
lifetime a lookup would have reported for it, and as many as were written; nothing is written only
if no record is unexpired. -/
def RoundTrips (inet : Inet) (ignoreTtl : Bool) (now : UInt32) (arena target : Arena) : Prop :=
  match saveToFile ignoreTtl now arena with
  | none => False
  | some none => ∀ key node, arena.recordOf key = some node → ¬ Live ignoreTtl now node
  | some (some (file, entriesWritten)) =>
    ∃ loaded, loadFromFile inet (fun _ ↦ now) (some file) target = some (loaded, entriesWritten) ∧ ∀ key,
        (∀ node, arena.recordOf key = some node → Live ignoreTtl now node →
          ∃ restored, loaded.recordOf key = some restored ∧
            Restored now (node.lookupTtl ignoreTtl now) node restored) ∧
        ((∀ node, arena.recordOf key = some node → ¬ Live ignoreTtl now node) → loaded.recordOf key = none)

/-- The time left, in milliseconds and rounded up, fits the 32 bits `lookup` calculates in. -/
def FitsClock (ignoreTtl : Bool) (now : UInt32) (node : Node) : Prop :=
  ignoreTtl = true ∨ node.ttl = 0 ∨
    node.ttl.toNat * 1000 - (elapsedMs now node.storedMs).toNat + 999 < 0x100000000

theorem lookupTtl_eq_savedTtl_iff (hlive : Live ignoreTtl now node) :
    node.lookupTtl ignoreTtl now = savedTtl ignoreTtl now node ↔ FitsClock ignoreTtl now node := by
  by_cases hplain : ignoreTtl = true ∨ node.ttl = 0
  · have hboth : node.lookupTtl ignoreTtl now = savedTtl ignoreTtl now node := by
      rcases hplain with hignore | hforever
      · simp [Node.lookupTtl, savedTtl, hignore]
      · simp [Node.lookupTtl, savedTtl, hforever]
    simp only [hboth, true_iff]
    exact hplain.elim .inl fun h ↦ .inr (.inl h)
  · obtain ⟨hignore, httl⟩ := not_or.mp hplain
    have hunexpired : node.expired now = false := hlive.resolve_left hignore
    have hfits : FitsClock ignoreTtl now node ↔
        node.ttl.toNat * 1000 - (elapsedMs now node.storedMs).toNat + 999 < 0x100000000 := by
      simp [FitsClock, hignore, httl]
    have hage : ¬ node.ttl ≤ elapsedMs now node.storedMs / 1000 := by
      simpa [Node.expired, httl] using hunexpired
    have hsaved : savedTtl ignoreTtl now node = node.ttl - elapsedMs now node.storedMs / 1000 := by
      simp [savedTtl, hignore, httl, hage]
    have hlookup : node.lookupTtl ignoreTtl now =
        (node.ttl * 1000 - elapsedMs now node.storedMs + 999) / 1000 := by
      simp [Node.lookupTtl, hignore, httl]
    have httlLt := node.ttl.toNat_lt
    have helapsedLt := (elapsedMs now node.storedMs).toNat_lt
    rw [hfits, hsaved, hlookup, ← UInt32.toNat_inj]
    simp only [UInt32.le_iff_toNat_le, UInt32.toNat_div, UInt32.toNat_add, UInt32.toNat_sub,
      UInt32.toNat_mul] at hage ⊢
    generalize node.ttl.toNat = ttl at *
    generalize (elapsedMs now node.storedMs).toNat = elapsed at *
    simp only [UInt32.reduceToNat] at hage ⊢
    omega

theorem saveToFile_load (hinverse : Inverse inet) (htidy : Tidy arena) (hvacant : Vacant target)
    (hsize : arena.nodeCount ≤ target.nodeCount) (ignoreTtl : Bool) (now : UInt32) :
    ∃ nodes : List Node,
      (∀ node ∈ nodes, arena.recordOf node.key = some node.record ∧ node.name ≠ [] ∧
        Live ignoreTtl now node) ∧
      (∀ key node, arena.recordOf key = some node → Live ignoreTtl now node → key.1 ≠ [] →
        ∃ original ∈ nodes, original.record = node ∧ original.key = key) ∧
      ((nodes = [] ∧ saveToFile ignoreTtl now arena = some none) ∨
        ∃ file loaded, saveToFile ignoreTtl now arena = some (some (file, nodes.length)) ∧
          loadFromFile inet (fun _ ↦ now) (some file) target = some (loaded, nodes.length) ∧
          (∀ node ∈ nodes, ∃ restored, loaded.recordOf node.key = some restored ∧
            Restored now (savedTtl ignoreTtl now node) node restored) ∧
          ∀ key ∉ nodes.map Node.key, loaded.recordOf key = none) := by
  obtain ⟨kept, hnodup, hkept, hlength, hsave⟩ := saveToFile_eq htidy ignoreTtl now
  have hnodes : ∀ node ∈ kept.map arena.nodes, Sane node ∧
      arena.recordOf node.key = some node.record ∧ node.name ≠ [] ∧ Live ignoreTtl now node := by
    intro node hnode
    obtain ⟨index, hindex, rfl⟩ := List.mem_map.mp hnode
    obtain ⟨hchained, hkeeps⟩ := (hkept index).mp hindex
    exact ⟨htidy.sane index hchained, htidy.wellFormed.recordOf_chained hchained, keepsNode_iff.mp hkeeps⟩
  refine ⟨kept.map arena.nodes, fun node hnode ↦ (hnodes node hnode).2, ?_, ?_⟩
  · intro key node hnode hlive hname
    obtain ⟨index, hchained, hkey, hrecord⟩ := htidy.wellFormed.recordOf_eq_some.mp hnode
    refine ⟨arena.nodes index, mem_map_of_mem ((hkept index).mpr ⟨hchained, ?_⟩), hrecord, hkey⟩
    apply keepsNode_iff.mpr
    rw [← hkey] at hname
    rw [← hrecord] at hlive
    exact ⟨hname, hlive⟩
  · by_cases hempty : kept = []
    · rw [if_pos hempty] at hsave
      exact .inl ⟨by rw [hempty, map_nil], hsave⟩
    · rw [if_neg hempty] at hsave
      have hkeys : ((kept.map arena.nodes).map Node.key).Nodup := by
        rw [List.map_map]
        apply List.Nodup.map_on ?_ hnodup
        intro first hfirst second hsecond hsame
        exact htidy.wellFormed.chained_inj ((hkept first).mp hfirst).1 ((hkept second).mp hsecond).1
          hsame
      have hroom : target.entries + (kept.map arena.nodes).length ≤ target.nodeCount := by
        rw [hvacant.entries, length_map]
        omega
      have hplausible : (kept.map arena.nodes).length ≤ kMaxPlausibleRecords := by
        calc
          (kept.map arena.nodes).length = kept.length := length_map arena.nodes
          _ ≤ arena.nodeCount := hlength
          _ ≤ kMaxNodes := htidy.nodeCount_le
          _ ≤ kMaxPlausibleRecords := by decide
      have hsane : ∀ node ∈ kept.map arena.nodes, Sane node := fun node hnode ↦ (hnodes node hnode).1
      have hnames : ∀ node ∈ kept.map arena.nodes, node.name ≠ [] :=
        fun node hnode ↦ (hnodes node hnode).2.2.1
      obtain ⟨loaded, hrestore, hpresent, habsent⟩ := restoreRecords_spec hinverse ignoreTtl now hsane
        hnames hkeys hvacant.wellFormed (fun node _ ↦ hvacant.recordOf node.key) hroom
      rw [← length_map arena.nodes] at hsave
      refine .inr ⟨_, loaded, hsave, ?_, hpresent, ?_⟩
      · rw [loadFromFile, read_fileBytes hsane hnames hplausible]
        simp only [hrestore, bind_eq_bind, bind_some, length_map]
        rfl
      · intro key hkey
        rw [habsent key hkey, hvacant.recordOf]

theorem roundTrips_of_tidy (hinverse : Inverse inet) (htidy : Tidy arena) (hvacant : Vacant target)
    (hsize : arena.nodeCount ≤ target.nodeCount) (ignoreTtl : Bool) (now : UInt32) :
    RoundTrips inet ignoreTtl now arena target ↔
      ∀ key node, arena.recordOf key = some node → Live ignoreTtl now node →
        key.1 ≠ [] ∧ FitsClock ignoreTtl now node := by
  obtain ⟨nodes, hnodes, hall, ⟨rfl, hsave⟩ | ⟨file, loaded, hsave, hload, hpresent, habsent⟩⟩ :=
    saveToFile_load hinverse htidy hvacant hsize ignoreTtl now
  · rw [RoundTrips, hsave]
    constructor
    · exact fun hnone key node hnode hlive ↦ absurd hlive (hnone key node hnode)
    · intro hcondition key node hnode hlive
      obtain ⟨original, horiginal, -⟩ := hall key node hnode hlive (hcondition key node hnode hlive).1
      cases horiginal
  · have hrestored : ∀ key node, arena.recordOf key = some node → Live ignoreTtl now node →
        key.1 ≠ [] → ∃ restored, loaded.recordOf key = some restored ∧
          Restored now (savedTtl ignoreTtl now node) node restored := by
      intro key node hnode hlive hname
      obtain ⟨original, horiginal, rfl, rfl⟩ := hall key node hnode hlive hname
      obtain ⟨restored, hfound, h⟩ := hpresent original horiginal
      exact ⟨restored, hfound, ⟨h.key, h.addresses, h.uses, h.storedMs, h.ttl⟩⟩
    have hnameless : ∀ key : Key, key.1 = [] → loaded.recordOf key = none := by
      intro key hname
      apply habsent
      intro hmem
      obtain ⟨node, hnode, rfl⟩ := List.mem_map.mp hmem
      exact (hnodes node hnode).2.1 hname
    rw [RoundTrips, hsave]
    constructor
    · rintro ⟨again, hagain, hcontents⟩ key node hnode hlive
      obtain rfl : loaded = again := by
        rw [hload] at hagain
        exact (Prod.mk.inj (Option.some.inj hagain)).1
      obtain ⟨restored, hfound, hsame⟩ := (hcontents key).1 node hnode hlive
      have hname : key.1 ≠ [] := by
        intro hname
        rw [hnameless key hname] at hfound
        cases hfound
      obtain ⟨written, hwritten, hsaved⟩ := hrestored key node hnode hlive hname
      obtain rfl := mem_unique hwritten hfound
      exact ⟨hname, (lookupTtl_eq_savedTtl_iff hlive).mp (hsame.ttl.symm.trans hsaved.ttl)⟩
    · intro hcondition
      refine ⟨loaded, hload, fun key ↦ ⟨?_, ?_⟩⟩
      · intro node hnode hlive
        obtain ⟨hname, hfits⟩ := hcondition key node hnode hlive
        rw [(lookupTtl_eq_savedTtl_iff hlive).mpr hfits]
        exact hrestored key node hnode hlive hname
      · intro hnone
        apply habsent
        intro hmem
        obtain ⟨node, hnode, rfl⟩ := List.mem_map.mp hmem
        exact hnone node.record (hnodes node hnode).1 (hnodes node hnode).2.2

/-- The round trip works exactly for caches in which every unexpired record has a name the writer
can see and a lifetime `lookup` can calculate. -/
theorem roundTrips_iff (hinverse : Inverse inet) {built : Bool} {calls : List Call} {cache : Cache}
    (hcalls : steps (Cache.step inet) (Cache.initial built) calls = some cache)
    (harena : cache.arena = some arena) (hvacant : Vacant target)
    (hsize : arena.nodeCount ≤ target.nodeCount) (ignoreTtl : Bool) (now : UInt32) :
    RoundTrips inet ignoreTtl now arena target ↔
      ∀ key node, arena.recordOf key = some node → Live ignoreTtl now node →
        key.1 ≠ [] ∧ FitsClock ignoreTtl now node :=
  roundTrips_of_tidy hinverse (tidy_of_steps hcalls arena harena) hvacant hsize ignoreTtl now

theorem unletters_flatMap (bytes : Bytes) : unletters (bytes.flatMap letters) = bytes := by
  induction bytes with
  | nil => rfl
  | cons byte bytes ih =>
    have hbyte := byte.toNat_lt
    have hhigh : (UInt8.ofNat (byte.toNat / 16 + 97)).toNat = byte.toNat / 16 + 97 := by
      rw [UInt8.toNat_ofNat']
      omega
    have hlow : (UInt8.ofNat (byte.toNat % 16 + 97)).toNat = byte.toNat % 16 + 97 := by
      rw [UInt8.toNat_ofNat']
      omega
    have hnumber : (byte.toNat / 16 + 97 - 97) * 16 + (byte.toNat % 16 + 97 - 97) = byte.toNat := by
      omega
    rw [flatMap_cons, letters, cons_append, cons_append, nil_append, unletters,
      hhigh, hlow, hnumber, UInt8.ofNat_toNat, ih]

theorem zero_not_mem_letters (bytes : Bytes) : 0 ∉ bytes.flatMap letters := by
  intro hzero
  obtain ⟨byte, -, hmem⟩ := mem_flatMap.mp hzero
  have hbyte := byte.toNat_lt
  simp only [letters, mem_cons, not_mem_nil, or_false] at hmem
  rcases hmem with heq | heq
  all_goals
    have hnumber := congrArg UInt8.toNat heq
    rw [UInt8.toNat_ofNat', UInt8.toNat_zero] at hnumber
    omega

theorem inverse_sampleInet : Inverse sampleInet := by
  constructor
  · intro address
    by_cases hsample : address = sampleAddress
    · subst hsample
      rfl
    · have htext : cString (address.toList.flatMap letters) = address.toList.flatMap letters :=
        cString_eq_self (zero_not_mem_letters _)
      have hother : address.toList.flatMap letters ≠ sampleText := by
        intro heq
        have hlength := congrArg List.length heq
        simp [letters, sampleText] at hlength
      simp only [sampleInet, if_neg hsample, htext, if_neg hother, unletters_flatMap, rawAddress_toList]
  · intro address
    have htext : cString (address.toList.flatMap letters) = address.toList.flatMap letters :=
      cString_eq_self (zero_not_mem_letters _)
    simp only [sampleInet, htext, unletters_flatMap, rawAddress_toList]

theorem exists_single_store (inet : Inet) {domain : Bytes} {qtype : UInt16} (payload : Payload)
    (hstorable : Storable domain qtype payload.ips) (time : Nat) :
    ∃ cache arena fresh index old,
      steps (Cache.step inet) (Cache.initial false)
        [.enable 1 true, .operate (.store domain qtype payload time 0)] = some cache ∧
      cache.arena = some arena ∧ Vacant fresh ∧
      Stored fresh arena inet (keyName domain, qtype) payload (nowMs time) index old := by
  obtain ⟨fresh, hfresh, hvacant, -⟩ := exists_enabled
  obtain ⟨arena, index, old, hstore, hstored⟩ :=
    hvacant.wellFormed.storeInternal hstorable inet (nowMs time) 0
  refine ⟨⟨some arena, 1, false⟩, arena, fresh, index, old, ?_, rfl, hvacant, hstored⟩
  simp [steps, Cache.step, Cache.perform, hfresh, Arena.perform, hstore]

/-- One record, saved a second after its store. -/
theorem roundTrips_iff_single : ∃ cache arena fresh,
      steps (Cache.step sampleInet) (Cache.initial false)
        [.enable 1 true, .operate (.store [0x61] kTypeA ⟨[sampleText], 60, none⟩ 5 0)] =
          some cache ∧
      cache.arena = some arena ∧ Vacant fresh ∧ arena.nodeCount ≤ fresh.nodeCount ∧
      RoundTrips sampleInet false (nowMs 1005) arena fresh := by
  have hstorable : Storable [0x61] kTypeA [sampleText] := by decide
  obtain ⟨cache, arena, fresh, index, old, hsteps, harena, hvacant, hstored⟩ :=
    exists_single_store sampleInet ⟨[sampleText], 60, none⟩ hstorable 5
  have hsize : arena.nodeCount ≤ fresh.nodeCount := hstored.change.nodeCount.le
  refine ⟨cache, arena, fresh, hsteps, harena, hvacant, hsize, ?_⟩
  apply (roundTrips_iff inverse_sampleInet hsteps harena hvacant hsize false (nowMs 1005)).mpr
  intro key node hnode _
  by_cases hkey : key = (keyName [0x61], kTypeA)
  · subst hkey
    obtain rfl := Option.some.inj (hstored.recordOf_self.symm.trans hnode)
    have hstands := hstored.standsFor hstorable
    refine ⟨by decide, .inr (.inr ?_)⟩
    rw [hstands.ttl, hstands.storedMs]
    decide
  · rw [hstored.recordOf_other hvacant.wellFormed hkey, withoutKey, hvacant.recordOf] at hnode
    split at hnode <;> cases hnode

/-- A name that starts with a zero byte is an empty name to the writer, and its record is left
out. -/
theorem roundTrips_fails : ∃ cache arena fresh,
      steps (Cache.step sampleInet) (Cache.initial false)
        [.enable 1 true, .operate (.store [0, 0x61] kTypeA ⟨[sampleText], 60, none⟩ 5 0)] =
          some cache ∧
      cache.arena = some arena ∧ Vacant fresh ∧ arena.nodeCount ≤ fresh.nodeCount ∧
      ¬ RoundTrips sampleInet false (nowMs 1005) arena fresh := by
  have hstorable : Storable [0, 0x61] kTypeA [sampleText] := by decide
  obtain ⟨cache, arena, fresh, index, old, hsteps, harena, hvacant, hstored⟩ :=
    exists_single_store sampleInet ⟨[sampleText], 60, none⟩ hstorable 5
  have hsize : arena.nodeCount ≤ fresh.nodeCount := hstored.change.nodeCount.le
  refine ⟨cache, arena, fresh, hsteps, harena, hvacant, hsize, fun htrip ↦ ?_⟩
  have hcondition := (roundTrips_of_tidy inverse_sampleInet (tidy_of_steps hsteps arena harena)
    hvacant hsize false (nowMs 1005)).mp htrip
  have hstands := hstored.standsFor hstorable
  have hlive : Live false (nowMs 1005)
      (old.written sampleInet ⟨[sampleText], 60, none⟩ (nowMs 5)).record := by
    right
    rw [Node.expired, hstands.ttl, hstands.storedMs]
    decide
  exact (hcondition _ _ hstored.recordOf_self hlive).1 (by decide)

end DhcpServer.Dns.CacheFile
