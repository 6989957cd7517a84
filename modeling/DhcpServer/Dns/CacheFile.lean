import DhcpServer.Dns.InternalCache

/-!
# The cache file

`CacheFileReader::read`, the writing half in `InternalDnsCache::saveToFile` and the restore. A file
is the bytes it holds; the reader's texts for the log are left out. The writer is split where the
source lets go of its lock: `snapshot` picks the nodes, `recordBytes` is what one of them, copied
later, becomes in the file.
-/

namespace DhcpServer.Dns.CacheFile

open Library InternalCache

def kMagic : Bytes := [0x44, 0x43, 0x43, 0x31]
def kHeaderBytes : Nat := 16
def kVersionOffset : Nat := 4
def kCountOffset : Nat := 8
def kTailBytes : Nat := 8
def kVersion : UInt32 := 3
def kVersionMin : UInt32 := 1
def kVersionUses64 : UInt32 := 2
def kMaxNameBytes : Nat := 127
def kMaxPlausibleRecords : Nat := 2000000
def kBytesPerIpv4 : Nat := 4
def kBytesPerIpv6 : Nat := 16

structure CacheFileRecord where
  name : Bytes
  qtype : UInt16
  ttlRemaining : UInt32
  uses : Nat
  addrs : List Bytes
deriving DecidableEq

inductive CacheFileStatus
  | ok
  | notFound
  | badHeader
  | unsupportedVersion
  | implausibleCount
  | truncated
  | badRecord
  | trailingBytes
deriving DecidableEq

structure CacheFileRead where
  status : CacheFileStatus
  version : UInt32 := 0
  headerCount : Nat := 0
  records : List CacheFileRecord := []
deriving DecidableEq

def readExact (count : Nat) (bytes : Bytes) : Option (Bytes × Bytes) :=
  if count ≤ bytes.length then some (bytes.take count, bytes.drop count) else none

def getU32 (bytes : Bytes) : UInt32 := readU32 (fun i ↦ bytes.getD i 0) 0

def getU64 (bytes : Bytes) : Nat := (getU32 bytes).toNat + 0x100000000 * (getU32 (bytes.drop 4)).toNat

/-- The usage counter: absent in version 1, eight bytes in version 2, four in version 3. -/
def readUses (version : UInt32) (bytes : Bytes) : Option (Nat × Bytes) :=
  if version < kVersionUses64 then some (0, bytes)
  else if version = kVersionUses64 then
    (readExact 8 bytes).map fun (uses, rest) ↦ (getU64 uses, rest)
  else (readExact 4 bytes).map fun (uses, rest) ↦ ((getU32 uses).toNat, rest)

def readAddrs (width : Nat) : (count : Nat) → Bytes → Option (List Bytes × Bytes)
  | 0, bytes => some ([], bytes)
  | count + 1, bytes => do
    let (addr, rest) ← readExact width bytes
    let (addrs, rest) ← readAddrs width count rest
    return (addr :: addrs, rest)

def readRecord (version : UInt32) (bytes : Bytes) : Except CacheFileStatus (CacheFileRecord × Bytes) := do
  let some (lengthByte, rest) := readExact 1 bytes | throw .truncated
  let nameLen := (lengthByte.getD 0 0).toNat
  if nameLen = 0 ∨ kMaxNameBytes < nameLen then throw .badRecord
  let some (name, rest) := readExact nameLen rest | throw .truncated
  let some (tail, rest) := readExact kTailBytes rest | throw .truncated
  let qtype := (tail.getD 0 0).toUInt16 ||| (tail.getD 1 0).toUInt16 <<< 8
  let countA := (tail.getD 2 0).toNat
  let countAaaa := (tail.getD 3 0).toNat
  let ttlRemaining := getU32 (tail.drop 4)
  if kMaxA < countA ∨ kMaxAaaa < countAaaa then throw .badRecord
  if qtype ≠ kTypeA ∧ qtype ≠ kTypeAaaa then throw .badRecord
  let some (uses, rest) := readUses version rest | throw .truncated
  let addrCount := if qtype = kTypeA then countA else countAaaa
  let addrBytes := if qtype = kTypeA then kBytesPerIpv4 else kBytesPerIpv6
  if addrCount = 0 then throw .badRecord
  let some (addrs, rest) := readAddrs addrBytes addrCount rest | throw .truncated
  return (⟨name, qtype, ttlRemaining, uses, addrs⟩, rest)

/-- The record loop and the test for bytes after the last record. -/
def readRecords (version : UInt32) : (count : Nat) → Bytes →
    List CacheFileRecord × CacheFileStatus
  | 0, rest => ([], if rest.isEmpty then .ok else .trailingBytes)
  | count + 1, bytes =>
    match readRecord version bytes with
    | .error status => ([], status)
    | .ok (record, rest) =>
      let (records, status) := readRecords version count rest
      (record :: records, status)

/-- `CacheFileReader::read`; `none` is a file that is not there. -/
def read (file : Option Bytes) : CacheFileRead :=
  match file with
  | none => { status := .notFound }
  | some bytes =>
    match readExact kHeaderBytes bytes with
    | none => { status := .badHeader }
    | some (header, rest) =>
      if header.take kMagic.length ≠ kMagic then { status := .badHeader }
      else
        let version := getU32 (header.drop kVersionOffset)
        let count := (getU32 (header.drop kCountOffset)).toNat
        if version < kVersionMin ∨ kVersion < version then { status := .unsupportedVersion, version }
        else if kMaxPlausibleRecords < count then
          { status := .implausibleCount, version, headerCount := count }
        else
          let (records, status) := readRecords version count rest
          { status, version, headerCount := count, records }

def rawAddress (width : Nat) (bytes : Bytes) : Vector UInt8 width := Vector.ofFn fun i ↦ bytes.getD i 0

/-- The texts `loadFromFile` makes of a record's addresses. -/
def CacheFileRecord.texts (record : CacheFileRecord) (inet : Inet) : List Bytes :=
  if record.qtype = kTypeAaaa then record.addrs.map fun addr ↦ inet.ntop6 (rawAddress 16 addr)
  else record.addrs.map fun addr ↦ inet.ntop4 (rawAddress 4 addr)

/-- The handler `loadFromFile` gives to the reader; `clock` tells the time at each record. -/
def restoreRecords (inet : Inet) (clock : Nat → UInt32) : List CacheFileRecord → Arena → Option Arena
  | [], arena => some arena
  | record :: records, arena => do
    let payload : Payload := ⟨record.texts inet, record.ttlRemaining, some record.uses⟩
    let stored ← arena.storeInternal inet record.name record.qtype payload
      (clock records.length) 0
    restoreRecords inet clock records stored

/-- `loadFromFile` into an arena: what it leaves there and `entriesLoaded`. -/
def loadFromFile (inet : Inet) (clock : Nat → UInt32) (file : Option Bytes) (arena : Arena) :
    Option (Arena × Nat) := do
  let records := (read file).records
  let restored ← restoreRecords inet clock records arena
  return (restored, records.length)

def putU32 (word : UInt32) : Bytes := wordBytes word

/-- The test of the first pass: a record that has a name and is not expired. -/
def keepsNode (ignoreTtl : Bool) (now : UInt32) (node : Node) : Bool :=
  !node.name.isEmpty && (ignoreTtl || !node.expired now)

/-- The indices of the nodes to write, in the order of the buckets. -/
def snapshot (ignoreTtl : Bool) (now : UInt32) (arena : Arena) : Option (List Nat) :=
  foldAll arena.link
    (fun _ kept index ↦
      if keepsNode ignoreTtl now (arena.nodes index) then kept ++ [index] else kept)
    arena.nodeCount arena.buckets arena.numBuckets []

/-- The lifetime the writer gives a record; an expired one gets a second. -/
def savedTtl (ignoreTtl : Bool) (now : UInt32) (node : Node) : UInt32 :=
  if !ignoreTtl && node.ttl != 0 then
    let ageSec := elapsedMs now node.storedMs / 1000
    if node.ttl ≤ ageSec then 1 else node.ttl - ageSec
  else node.ttl

/-- The second test: what was copied has a name the format can hold. -/
def writesNode (node : Node) : Bool := !node.name.isEmpty && node.name.length ≤ kMaxNameBytes

def tailBytes (ignoreTtl : Bool) (now : UInt32) (node : Node) : Bytes :=
  [node.qtype.toUInt8, (node.qtype >>> 8).toUInt8, UInt8.ofNat node.nA, UInt8.ofNat node.nAaaa] ++
    putU32 (savedTtl ignoreTtl now node)

def addressBytes (node : Node) : Bytes :=
  (node.a4.toList.take node.nA).flatMap Vector.toList ++
    (node.a6.toList.take node.nAaaa).flatMap Vector.toList

def recordBytes (ignoreTtl : Bool) (now : UInt32) (node : Node) : Bytes :=
  [UInt8.ofNat node.name.length] ++ node.name ++ tailBytes ignoreTtl now node ++
    putU32 node.uses ++ addressBytes node

def headerBytes (count : Nat) : Bytes :=
  kMagic ++ putU32 kVersion ++ putU32 (UInt32.ofNat count) ++ putU32 0

def fileBytes (ignoreTtl : Bool) (now : UInt32) (copies : List Node) : Bytes :=
  let written := copies.filter writesNode
  headerBytes written.length ++ written.flatMap (recordBytes ignoreTtl now)

/-- `saveToFile` with nothing else going on, on storage that works: the file and `entriesWritten`,
or nothing when there is nothing to save. -/
def saveToFile (ignoreTtl : Bool) (now : UInt32) (arena : Arena) : Option (Option (Bytes × Nat)) := do
  let kept ← snapshot ignoreTtl now arena
  if kept.isEmpty then return none
  let copies := kept.map arena.nodes
  return some (fileBytes ignoreTtl now copies, (copies.filter writesNode).length)

end DhcpServer.Dns.CacheFile
