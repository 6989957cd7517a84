import DhcpServer.Library.Bytes
import DhcpServer.Library.LinkedList

/-!
# The built-in DNS cache

`InternalDnsCache`: a pool of nodes in one arena, hash chains and a free stack threaded through the
nodes by index. Links are `none` where the source has -1. Every function below is one section the
source runs under its mutex. A walk along a chain is given as much fuel as there are nodes; `none`
says that it needed more, which happens only on a cyclic chain and means that the source does not
return.

The names of nodes are kept as C strings: the source copies the whole lower-cased name, but nothing
ever reads past the first zero byte.
-/

namespace DhcpServer.Dns.InternalCache

open Library Function

def kMaxNameLen : Nat := 127
def kMaxA : Nat := 16
def kMaxAaaa : Nat := 8
def kTypeA : UInt16 := 1
def kTypeAaaa : UInt16 := 28
def kMinCacheSizeMb : Nat := 1
def kMaxCacheSizeMb : Nat := 20
def kBucketGranularityBytes : Nat := 4096
def kMinBuckets : Nat := 1024
def kFnvOffsetBasis : UInt32 := 2166136261
def kFnvPrime : UInt32 := 16777619
def kUsesMax : UInt32 := 0xFFFFFFFF

def kNodeBytes : Nat := 352

/-- An IPv4 address, in network byte order. -/
abbrev V4 := Vector UInt8 4
abbrev V6 := Vector UInt8 16

/-- `inet_pton` and `inet_ntop` of lwIP; `none` is a text that is no address of the family. -/
structure Inet where
  pton4 : Bytes → Option V4
  ntop4 : V4 → Bytes
  pton6 : Bytes → Option V6
  ntop6 : V6 → Bytes

structure Node where
  next : Option Nat
  hash : UInt32
  qtype : UInt16
  nA : Nat
  nAaaa : Nat
  storedMs : UInt32
  ttl : UInt32
  uses : UInt32
  name : Bytes
  a4 : Vector V4 kMaxA
  a6 : Vector V6 kMaxAaaa

def zeroNode : Node :=
  ⟨none, 0, 0, 0, 0, 0, 0, 0, [], Vector.replicate _ (Vector.replicate _ 0),
    Vector.replicate _ (Vector.replicate _ 0)⟩

structure Counters where
  hits : Nat := 0
  misses : Nat := 0
  evicted : Nat := 0
  lookupWaitUs : Nat := 0
  walkedNodes : Nat := 0
  stores : Nat := 0
  evictScans : Nat := 0
  evictScanUs : Nat := 0
  evictScanNodes : Nat := 0
  usesTotal : UInt32 := 0

/-- The record that leads the field (`topUses_`, `topQtype_`, `topIdx_`). -/
structure TopMark where
  uses : UInt32
  qtype : UInt16
  idx : Nat

structure Arena where
  nodes : Nat → Node
  nodeCount : Nat
  buckets : Nat → Option Nat
  numBuckets : Nat
  freeHead : Option Nat
  entries : Nat
  counters : Counters
  top : Option TopMark

structure Cache where
  arena : Option Arena
  sizeMb : Nat
  ignoreTtl : Bool

def Cache.initial (ignoreTtl : Bool) : Cache := ⟨none, 0, ignoreTtl⟩

def lower (name : Bytes) : Bytes := name.map toLower

/-- The key of a record: what the source compares of a name. -/
def keyName (domain : Bytes) : Bytes := cString (lower domain)

def hashName (name : Bytes) : UInt32 :=
  name.foldl (fun h byte ↦ (h ^^^ byte.toUInt32) * kFnvPrime) kFnvOffsetBasis

def elapsedMs (now stored : UInt32) : UInt32 := now - stored

namespace Arena

variable (arena : Arena)

def link (index : Nat) : Option Nat := (arena.nodes index).next

def setNode (index : Nat) (node : Node) : Arena := { arena with nodes := update arena.nodes index node }

def setNext (index : Nat) (next : Option Nat) : Arena := arena.setNode index { arena.nodes index with next }

def bucketOf (hash : UInt32) : Nat := hash.toNat % arena.numBuckets

def allocNode : Arena × Option Nat :=
  match arena.freeHead with
  | none => (arena, none)
  | some index => ({ arena.setNext index none with freeHead := arena.link index }, some index)

def freeNode (index : Nat) : Arena := { arena.setNext index arena.freeHead with freeHead := some index }

/-- The test `findNode` makes at each node. -/
def matchesKey (hash : UInt32) (name : Bytes) (qtype : UInt16) (index : Nat) : Bool :=
  let node := arena.nodes index
  node.hash == hash && node.qtype == qtype && node.name == name

/-- The node found, and how many nodes of the chain were looked at. -/
def findNode (hash : UInt32) (name : Bytes) (qtype : UInt16) : Option (Option Nat × Nat) :=
  findFrom arena.link (arena.matchesKey hash name qtype) arena.nodeCount
    (arena.buckets (arena.bucketOf hash)) 0

structure Victim where
  idx : Nat
  bucket : Nat
  uses : UInt32
  age : UInt32

/-- The body of the scan: a node beats the best so far with fewer uses, or as many and a greater
age. -/
def considerVictim (now : UInt32) (bucket : Nat) (scan : Option Victim × Nat) (index : Nat) :
    Option Victim × Nat :=
  let node := arena.nodes index
  let age := elapsedMs now node.storedMs
  let candidate : Victim := ⟨index, bucket, node.uses, age⟩
  match scan with
  | (none, seen) => (some candidate, seen + 1)
  | (some best, seen) =>
    if best.uses < node.uses then (some best, seen + 1)
    else if node.uses = best.uses ∧ age ≤ best.age then (some best, seen + 1)
    else (some candidate, seen + 1)

def findEvictVictim (now : UInt32) : Option (Option Victim × Nat) :=
  foldAll arena.link (arena.considerVictim now) arena.nodeCount arena.buckets arena.numBuckets
    (none, 0)

def unlinkNode (bucket index : Nat) : Option Arena := do
  let some previous ← previousFrom arena.link index arena.nodeCount none (arena.buckets bucket)
    | return arena
  let unlinked :=
    match previous with
    | none => { arena with buckets := update arena.buckets bucket (arena.link index) }
    | some before => arena.setNext before (arena.link index)
  return { unlinked.freeNode index with entries := arena.entries - 1 }

def noteMark (index : Nat) : Arena :=
  let node := arena.nodes index
  if node.uses = 0 then arena
  else
    match arena.top with
    | some top =>
      if node.uses < top.uses then arena
      else { arena with top := some ⟨node.uses, node.qtype, index⟩ }
    | none => { arena with top := some ⟨node.uses, node.qtype, index⟩ }

def saturatingSucc (count : UInt32) : UInt32 := if count = kUsesMax then count else count + 1

def bumpUse (index : Nat) : Arena :=
  let node := arena.nodes index
  let used := arena.setNode index { node with uses := saturatingSucc node.uses }
  let counters := { arena.counters with usesTotal := saturatingSucc arena.counters.usesTotal }
  { used with counters }.noteMark index

end Arena

/-- The address loop of a store: slot `i` takes the `i`-th text; one that does not parse leaves the
slot as it was. -/
def fillAddresses {Address : Type} {room : Nat} (pton : Bytes → Option Address)
    (old : Vector Address room) (ips : List Bytes) : Vector Address room :=
  Vector.ofFn fun i ↦ (ips[i.val]?.bind fun ip ↦ pton (cString ip)).getD (old.get i)

def addressCount (room : Nat) (ips : List Bytes) : Nat := min ips.length room

def Node.withAddresses (node : Node) (inet : Inet) (ips : List Bytes) : Node :=
  if node.qtype = kTypeA then
    { node with nA := addressCount kMaxA ips, nAaaa := 0, a4 := fillAddresses inet.pton4 node.a4 ips }
  else
    { node with
      nA := 0, nAaaa := addressCount kMaxAaaa ips, a6 := fillAddresses inet.pton6 node.a6 ips }

/-- The texts `lookup` makes of the addresses of a node. -/
def Node.texts (node : Node) (inet : Inet) : List Bytes :=
  if node.qtype = kTypeA then (node.a4.toList.take node.nA).map inet.ntop4
  else if node.qtype = kTypeAaaa then (node.a6.toList.take node.nAaaa).map inet.ntop6
  else []

def Node.expired (node : Node) (now : UInt32) : Bool :=
  node.ttl != 0 && node.ttl ≤ elapsedMs now node.storedMs / 1000

/-- The lifetime `lookup` hands out, in 32-bit arithmetic. -/
def Node.lookupTtl (node : Node) (ignoreTtl : Bool) (now : UInt32) : UInt32 :=
  if ignoreTtl || node.ttl == 0 then node.ttl
  else (node.ttl * 1000 - elapsedMs now node.storedMs + 999) / 1000

structure Payload where
  ips : List Bytes
  ttl : UInt32
  /-- `none`: one more use; `some`: a restore, with the counter of the file -/
  usesExact : Option Nat := none

def clampUses (uses : Nat) : UInt32 := if uses ≤ kUsesMax.toNat then UInt32.ofNat uses else kUsesMax

namespace Arena

variable (arena : Arena)

/-- A node for a new record, taken from the pool or from the record evicted for it. -/
def takeNode (now : UInt32) (scanUs : Nat) : Option (Arena × Option Nat) :=
  match arena.allocNode with
  | (taken, some index) => some (taken, some index)
  | (_, none) => do
    let (victim, scanned) ← arena.findEvictVictim now
    let counters :=
      { arena.counters with
        evictScanUs := arena.counters.evictScanUs + scanUs
        evictScans := arena.counters.evictScans + 1
        evictScanNodes := arena.counters.evictScanNodes + scanned }
    match victim with
    | none => return ({ arena with counters }, none)
    | some victim =>
      let unlinked ← { arena with counters }.unlinkNode victim.bucket victim.idx
      let counted :=
        { unlinked with
          counters := { unlinked.counters with evicted := unlinked.counters.evicted + 1 } }
      return counted.allocNode

def linkNode (index : Nat) (hash : UInt32) (name : Bytes) (qtype : UInt16) (now : UInt32) : Arena :=
  let bucket := arena.bucketOf hash
  let node :=
    { arena.nodes index with
      hash, qtype, name, uses := 0, storedMs := now, next := arena.buckets bucket }
  { arena.setNode index node with
    buckets := update arena.buckets bucket (some index)
    entries := arena.entries + 1 }

def writeRecord (inet : Inet) (index : Nat) (payload : Payload) (now : UInt32) : Arena :=
  let node := arena.nodes index
  let fresh := { node with storedMs := now, ttl := payload.ttl }.withAddresses inet payload.ips
  let counters := { arena.counters with stores := arena.counters.stores + 1 }
  match payload.usesExact with
  | none => { arena.setNode index fresh with counters }.bumpUse index
  | some uses =>
    { arena.setNode index { fresh with uses := clampUses uses } with counters }.noteMark index

def storeInternal (inet : Inet) (domain : Bytes) (qtype : UInt16) (payload : Payload)
    (now : UInt32) (scanUs : Nat) : Option Arena :=
  if domain.isEmpty || payload.ips.isEmpty then some arena
  else if qtype ≠ kTypeA ∧ qtype ≠ kTypeAaaa then some arena
  else if kMaxNameLen ≤ (lower domain).length then some arena
  else do
    let name := keyName domain
    let hash := hashName name
    match ← arena.findNode hash name qtype with
    | (some index, _) => return arena.writeRecord inet index payload now
    | (none, _) =>
      match ← arena.takeNode now scanUs with
      | (taken, some index) =>
        return (taken.linkNode index hash name qtype now).writeRecord inet index payload now
      | (same, none) => return same

def missed : Arena := { arena with counters := { arena.counters with misses := arena.counters.misses + 1 } }

/-- `lookup`; a hit is the texts and the lifetime. -/
def lookup (inet : Inet) (ignoreTtl : Bool) (domain : Bytes) (qtype : UInt16) (now : UInt32)
    (waitUs : Nat) : Option (Arena × Option (List Bytes × UInt32)) :=
  if domain.isEmpty then some (arena, none)
  else if kMaxNameLen ≤ (lower domain).length then some (arena, none)
  else do
    let name := keyName domain
    let hash := hashName name
    match ← arena.findNode hash name qtype with
    | (none, _) => return (arena.missed, none)
    | (some index, walked) =>
      let node := arena.nodes index
      if !ignoreTtl && node.expired now then
        let purged ← arena.unlinkNode (arena.bucketOf hash) index
        let counters := { purged.counters with evicted := purged.counters.evicted + 1 }
        return ({ purged with counters }.missed, none)
      else if (node.texts inet).isEmpty then return (arena.missed, none)
      else
        let counters :=
          { arena.counters with
            lookupWaitUs := arena.counters.lookupWaitUs + waitUs
            walkedNodes := arena.counters.walkedNodes + walked
            hits := arena.counters.hits + 1 }
        return ({ arena with counters }.bumpUse index, some (node.texts inet, node.lookupTtl ignoreTtl now))

/-- `erase`; the answer says whether there was such a record. -/
def erase (domain : Bytes) (qtype : UInt16) : Option (Arena × Bool) :=
  if domain.isEmpty then some (arena, false)
  else do
    let name := keyName domain
    let hash := hashName name
    match ← arena.findNode hash name qtype with
    | (none, _) => return (arena, false)
    | (some index, _) =>
      let unlinked ← arena.unlinkNode (arena.bucketOf hash) index
      return (unlinked, true)

/-- Empty buckets and every node on the free stack, the last one on top. -/
def emptied : Arena :=
  { arena with
    nodes := fun index ↦
      if index < arena.nodeCount then { arena.nodes index with next := below index }
      else arena.nodes index
    buckets := fun _ ↦ none
    freeHead := below arena.nodeCount
    entries := 0
    top := none }

/-- `clear`; the contents of the nodes stay behind. -/
def clear : Arena := arena.emptied

end Arena

def numBucketsOf (arenaBytes : Nat) : Nat := max (arenaBytes / kBucketGranularityBytes) kMinBuckets

/-- `enable`; `allocated` says whether there was memory for the arena. -/
def Cache.enable (cache : Cache) (sizeMb : Nat) (allocated : Bool) : Cache :=
  if cache.arena.isSome then { cache with sizeMb }
  else
    let sizeMb := min (max sizeMb kMinCacheSizeMb) kMaxCacheSizeMb
    let arenaBytes := sizeMb * 1024 * 1024
    let numBuckets := numBucketsOf arenaBytes
    let bucketBytes := numBuckets * 4
    let nodeCount := (arenaBytes - bucketBytes) / kNodeBytes
    if arenaBytes ≤ bucketBytes ∨ nodeCount < 1 ∨ !allocated then cache
    else
      let arena : Arena := ⟨fun _ ↦ zeroNode, nodeCount, fun _ ↦ none, numBuckets, none, 0, {}, none⟩
      { cache with arena := some arena.emptied, sizeMb }

end DhcpServer.Dns.InternalCache
