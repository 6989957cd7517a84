import DhcpServer.Core.AtomicFile

/-!
# The statistics file

`DnsStatStore::encode`, `decode`, the file calls of `save`, and `load`. The record is written in one
piece; the flush before the close does nothing on its own here.
-/

namespace DhcpServer.Dns.DnsStatStore

open Library Core.AtomicFile

structure DnsStatTotals where
  hits : UInt64 := 0
  forwards : UInt64 := 0
  hitUsSum : UInt64 := 0
  waitUs : UInt64 := 0
  walkedNodes : UInt64 := 0
  stores : UInt64 := 0
  evictScans : UInt64 := 0
  evictScanUs : UInt64 := 0
  evictScanNodes : UInt64 := 0
deriving DecidableEq

def kMagic : Bytes := [0x44, 0x53, 0x54, 0x31]
def kVersion : UInt32 := 2
def kVersionLegacy : UInt32 := 1
def kRecordSize : Nat := 92
def kRecordSizeLegacy : Nat := 44
def kVersionOffset : Nat := 4
def kPayloadSizeOffset : Nat := 8
def kHeaderBytes : UInt32 := 16
def kChecksumBytes : UInt32 := 4
def kPayloadV1Bytes : UInt32 := 24
def kPayloadV2Bytes : UInt32 := 72
def kOffsetHits : Nat := 16
def kOffsetForwards : Nat := 24
def kOffsetHitUsSum : Nat := 32
def kOffsetWaitUs : Nat := 40
def kOffsetWalkedNodes : Nat := 48
def kOffsetStores : Nat := 56

def putU32 (value : UInt32) : Bytes := wordBytes value

def putU64 (value : UInt64) : Bytes := wordBytes value.toUInt32 ++ wordBytes (value >>> 32).toUInt32

/-- The sum of the bytes, the file's own integrity check. -/
def checksumOf (text : Bytes) : UInt32 := text.foldl (fun sum byte ↦ sum + byte.toUInt32) 0

def DnsStatTotals.counters (totals : DnsStatTotals) : List UInt64 :=
  [totals.hits, totals.forwards, totals.hitUsSum, totals.waitUs, totals.walkedNodes,
    totals.stores, totals.evictScans, totals.evictScanUs, totals.evictScanNodes]

def encode (totals : DnsStatTotals) : Bytes :=
  let body := kMagic ++ putU32 kVersion ++ putU32 kPayloadV2Bytes ++ putU32 0 ++
    totals.counters.flatMap putU64
  body ++ putU32 (checksumOf body)

def saveCalls (path : Bytes) (totals : DnsStatTotals) : List Call :=
  [.create (partPath path), .append (partPath path) (encode totals), .close (partPath path)]

theorem saves_saveCalls (path : Bytes) (totals : DnsStatTotals) :
    Saves path (saveCalls path totals) (encode totals) where
  within := by simp [saveCalls, Call.Within]
  written := by simp [saveCalls, Call.apply]

def getU32 (text : Bytes) (offset : Nat) : UInt32 := readU32 (fun i ↦ text.getD i 0) offset

def getU64 (text : Bytes) (offset : Nat) : UInt64 :=
  (getU32 text offset).toUInt64 ||| (getU32 text (offset + 4)).toUInt64 <<< 32

def wantPayload (version : UInt32) : UInt32 :=
  if version = kVersionLegacy then kPayloadV1Bytes else kPayloadV2Bytes

/-- The sum is one of `uint32_t`. -/
def sizeFor (payload : UInt32) : Nat := (kHeaderBytes + payload + kChecksumBytes).toNat

/-- The totals `out` is left with, or the reason. -/
def decode (record : Bytes) (out : DnsStatTotals) : Except Bytes DnsStatTotals :=
  if record.length ≠ kRecordSize ∧ record.length ≠ kRecordSizeLegacy then
    .error (ascii "unexpected size")
  else if record.take kMagic.length ≠ kMagic then .error (ascii "not a statistics file")
  else
    let version := getU32 record kVersionOffset
    if version = 0 ∨ kVersion < version then .error (ascii "unsupported version")
    else if getU32 record kPayloadSizeOffset ≠ wantPayload version ∨
        record.length ≠ sizeFor (wantPayload version) then .error (ascii "payload size mismatch")
    else
      let body := record.take (record.length - kChecksumBytes.toNat)
      if getU32 record (record.length - kChecksumBytes.toNat) ≠ checksumOf body then
        .error (ascii "checksum mismatch")
      else
        let out := { out with
          hits := getU64 record kOffsetHits
          forwards := getU64 record kOffsetForwards
          hitUsSum := getU64 record kOffsetHitUsSum }
        if 2 ≤ version then
          .ok { out with
            waitUs := getU64 record kOffsetWaitUs
            walkedNodes := getU64 record kOffsetWalkedNodes
            stores := getU64 record kOffsetStores
            evictScans := getU64 record 64
            evictScanUs := getU64 record 72
            evictScanNodes := getU64 record 80 }
        else .ok out

/-- `load` of what stands under the name. At most one record is read, and the header says how much of
that is decoded. -/
def loadFile (file : Option Bytes) (out : DnsStatTotals) : Except Bytes DnsStatTotals :=
  match file with
  | none => .error (ascii "no statistics file")
  | some content =>
    let buffer := content.take kRecordSize
    if buffer.length < kHeaderBytes.toNat then .error (ascii "unexpected size")
    else
      let payload := getU32 (buffer.take kHeaderBytes.toNat) kPayloadSizeOffset
      if buffer.length < sizeFor payload then .error (ascii "truncated file")
      else decode (buffer.take (sizeFor payload)) out

/-- The storage is left as `recover` leaves it. -/
def load (path : Bytes) (storage : Storage) (out : DnsStatTotals) : Storage × Except Bytes DnsStatTotals :=
  (recover path storage, loadFile (recover path storage path) out)

end DhcpServer.Dns.DnsStatStore
