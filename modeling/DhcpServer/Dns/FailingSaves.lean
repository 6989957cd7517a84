import DhcpServer.Dns.PublishedFiles
import DhcpServer.Dns.RecordGrammar

/-!
# A save whose file calls may fail

`InternalDnsCache::saveToFile` with `atomicfile::publish`, on a volume that may refuse any call and take
any part of a write. A failed write ends the loop through a flag, which the writes and the close feed; of
the seek back to the count only its success is asked, to decide whether the count is written at all.
-/

namespace DhcpServer.Dns.FailingSaves

open Library Core.AtomicFile
open InternalCache (Arena Node)
open CacheFile List Function

structure Environment where
  opens : Bool
  /-- how many bytes a write takes, by its number among the writes of the save -/
  takes : Nat → Nat
  seeks : Bool
  closes : Bool
  /-- the removal of a part that failed -/
  partRemoves : Bool
  /-- the part opens for reading when it is to be published -/
  partReads : Bool
  /-- the old file is removed, or was not there -/
  removes : Bool
  renames : Bool

structure Source where
  arena : Option Arena
  ignoreTtl : Bool
  /-- there is memory for the list of nodes -/
  allocates : Bool
  /-- the clock when the nodes are listed -/
  listedMs : UInt32
  now : UInt32
  /-- the cache when the node with this number on the list is copied -/
  later : Nat → Arena

structure Stream where
  storage : Storage
  writes : Nat

structure Loop where
  stream : Stream
  ok : Bool
  written : Nat

inductive FileCall
  | fopen
  | fwrite
  | fclose
  | readable
  | remove
  | rename

structure Saved where
  storage : Storage
  returned : Bool
  entriesWritten : Nat := 0
  nothingToSave : Bool := false
  /-- the call after which the save gave up; the source does not tell -/
  failed : Option FileCall := none

section Save

variable (env : Environment) (part : Bytes)

def Stream.fwrite (stream : Stream) (bytes : Bytes) : Stream × Bool :=
  let taken := env.takes stream.writes
  (⟨(Call.append part (bytes.take taken)).apply stream.storage, stream.writes + 1⟩,
    decide (bytes.length ≤ taken))

/-- Writes one after the other, up to the first that fails. -/
def Stream.fwriteAll : List Bytes → Stream → Stream × Bool
  | [], stream => (stream, true)
  | bytes :: others, stream =>
    let (stream, whole) := stream.fwrite env part bytes
    if whole then Stream.fwriteAll others stream else (stream, false)

/-- What a turn of the loop writes before the IPv6 addresses. -/
def fieldChunks (ignoreTtl : Bool) (now : UInt32) (node : Node) : List Bytes :=
  [[UInt8.ofNat node.name.length], node.name, tailBytes ignoreTtl now node, putU32 node.uses] ++
    if 0 < node.nA then [(node.a4.toList.take node.nA).flatMap Vector.toList] else []

def aaaaChunks (node : Node) : List Bytes := (node.a6.toList.take node.nAaaa).map Vector.toList

/-- One turn. A failed write of a field leaves the loop at once, one of an IPv6 address only the loop
over these. -/
def writeNode (ignoreTtl : Bool) (now : UInt32) (loop : Loop) (node : Node) : Loop :=
  if !writesNode node then loop
  else
    let (stream, whole) := loop.stream.fwriteAll env part (fieldChunks ignoreTtl now node)
    if !whole then { loop with stream, ok := false }
    else
      let (stream, whole) := stream.fwriteAll env part (aaaaChunks node)
      { stream, ok := whole, written := loop.written + 1 }

def writeNodes (ignoreTtl : Bool) (now : UInt32) : List Node → Loop → Loop
  | [], loop => loop
  | node :: nodes, loop =>
    if loop.ok then writeNodes ignoreTtl now nodes (writeNode env part ignoreTtl now loop node) else loop

/-- The real count goes into the header. A seek that fails is no failure. -/
def patchCount (loop : Loop) : Loop :=
  if loop.ok && env.seeks then
    let taken := env.takes loop.stream.writes
    let count := putU32 (UInt32.ofNat loop.written)
    { loop with
      stream := ⟨(Call.overwrite part kCountOffset (count.take taken)).apply loop.stream.storage,
        loop.stream.writes + 1⟩
      ok := decide (count.length ≤ taken) }
  else loop

end Save

/-- `publish`, and the call that failed if it returns `false`. -/
def publish (env : Environment) (path : Bytes) (storage : Storage) : Storage × Option FileCall :=
  if !(readable storage (partPath path) && env.partReads) then (storage, some .readable)
  else if !env.removes then (storage, some .remove)
  else
    let storage := (Call.remove path).apply storage
    if !env.renames then (storage, some .rename)
    else ((Call.rename (partPath path) path).apply storage, none)

def copies (source : Source) (kept : List Nat) : List Node :=
  kept.mapIdx fun number index ↦ (source.later number).nodes index

/-- The end of `saveToFile`, from the close on. -/
def closeAndPublish (env : Environment) (path : Bytes) (loop : Loop) : Saved :=
  if !loop.ok || !env.closes then
    { storage := if env.partRemoves then (Call.remove (partPath path)).apply loop.stream.storage
        else loop.stream.storage
      returned := false
      failed := some (if loop.ok then .fclose else .fwrite) }
  else
    match publish env path loop.stream.storage with
    | (storage, some call) => { storage, returned := false, failed := some call }
    | (storage, none) => { storage, returned := true, entriesWritten := loop.written }

def saveToFile (env : Environment) (source : Source) (path : Bytes) (storage : Storage) : Option Saved :=
  if path.isEmpty then some { storage, returned := false }
  else
    match source.arena with
    | none => some { storage, returned := false }
    | some arena => do
      let kept ← snapshot source.ignoreTtl source.listedMs arena
      if kept.isEmpty then return { storage, returned := false, nothingToSave := true }
      if !source.allocates then return { storage, returned := false }
      if !env.opens then return { storage, returned := false, failed := some .fopen }
      let part := partPath path
      let created : Stream := ⟨(Call.create part).apply storage, 0⟩
      let (stream, whole) := created.fwrite env part (headerBytes 0)
      if !whole then return { storage := stream.storage, returned := false, failed := some .fwrite }
      let loop := writeNodes env part source.ignoreTtl source.now (copies source kept) ⟨stream, true, 0⟩
      return closeAndPublish env path (patchCount env part loop)

variable {env : Environment} {part other : Bytes} {chunks more : List Bytes} {stream stream' after : Stream}
  {whole : Bool}

/-- The writes from a number on take everything they are given. -/
def Takes (takes : Nat → Nat) : List Bytes → Nat → Prop
  | [], _ => True
  | bytes :: others, number => bytes.length ≤ takes number ∧ Takes takes others (number + 1)

theorem takes_append {takes : Nat → Nat} (first second : List Bytes) (number : Nat) :
    Takes takes (first ++ second) number ↔
      Takes takes first number ∧ Takes takes second (number + first.length) := by
  induction first generalizing number with
  | nil => simp [Takes]
  | cons bytes others ih =>
    have hnumber : number + 1 + others.length = number + (others.length + 1) := by omega
    rw [cons_append, Takes, Takes, ih, length_cons, hnumber, and_assoc]

/-- What became of writing `chunks` at the end of the part. -/
structure Wrote (env : Environment) (part : Bytes) (chunks : List Bytes) (stream stream' : Stream)
    (whole : Bool) : Prop where
  other : ∀ name ≠ part, stream'.storage name = stream.storage name
  whole_iff : whole = true ↔ Takes env.takes chunks stream.writes
  content : whole = true → stream'.storage part = (stream.storage part).map (· ++ chunks.flatten)
  writes : whole = true → stream'.writes = stream.writes + chunks.length

theorem Wrote.nil : Wrote env part [] stream stream true := by
  constructor
  · exact fun name _ ↦ rfl
  · simp [Takes]
  · simp
  · simp

theorem Wrote.append (hfirst : Wrote env part chunks stream stream' true)
    (hsecond : Wrote env part more stream' after whole) :
    Wrote env part (chunks ++ more) stream after whole := by
  have hwrites := hfirst.writes rfl
  constructor
  · intro name hname
    rw [hsecond.other name hname, hfirst.other name hname]
  · rw [takes_append, ← hwrites, hsecond.whole_iff]
    exact (and_iff_right (hfirst.whole_iff.mp rfl)).symm
  · intro hwhole
    rw [hsecond.content hwhole, hfirst.content rfl, Option.map_map, flatten_append]
    congr 1
    funext content
    exact append_assoc content _ _
  · intro hwhole
    rw [hsecond.writes hwhole, hwrites, length_append, Nat.add_assoc]

theorem Wrote.stop (hfirst : Wrote env part chunks stream stream' false) (more : List Bytes) :
    Wrote env part (chunks ++ more) stream stream' false := by
  constructor
  · exact hfirst.other
  · rw [takes_append]
    refine iff_of_false Bool.false_ne_true fun htakes ↦ ?_
    exact Bool.false_ne_true (hfirst.whole_iff.mpr htakes.1)
  · exact fun hwhole ↦ absurd hwhole Bool.false_ne_true
  · exact fun hwhole ↦ absurd hwhole Bool.false_ne_true

theorem wrote_fwrite (env : Environment) (part : Bytes) (stream : Stream) (bytes : Bytes) :
    Wrote env part [bytes] stream (stream.fwrite env part bytes).1 (stream.fwrite env part bytes).2 := by
  constructor
  · intro name hname
    exact update_of_ne hname _ _
  · simp [Stream.fwrite, Takes]
  · intro hwhole
    have hall : bytes.take (env.takes stream.writes) = bytes := take_of_length_le (of_decide_eq_true hwhole)
    rw [Stream.fwrite, hall, flatten_singleton]
    exact update_self _ _ _
  · exact fun _ ↦ rfl

theorem wrote_fwriteAll (env : Environment) (part : Bytes) (chunks : List Bytes) (stream : Stream) :
    Wrote env part chunks stream (stream.fwriteAll env part chunks).1
      (stream.fwriteAll env part chunks).2 := by
  induction chunks generalizing stream with
  | nil => exact Wrote.nil
  | cons bytes others ih =>
    have hfirst := wrote_fwrite env part stream bytes
    rw [Stream.fwriteAll]
    generalize stream.fwrite env part bytes = first at hfirst
    obtain ⟨middle, whole⟩ := first
    cases whole with
    | true => exact hfirst.append (ih middle)
    | false => exact hfirst.stop others

/-- The chunks of the records of `nodes`. -/
def nodeChunks (ignoreTtl : Bool) (now : UInt32) (nodes : List Node) : List Bytes :=
  (nodes.filter writesNode).flatMap (recordChunks ignoreTtl now)

/-- What the loop has done for `nodes`. -/
structure Looped (env : Environment) (part : Bytes) (ignoreTtl : Bool) (now : UInt32) (nodes : List Node)
    (loop loop' : Loop) : Prop where
  wrote : Wrote env part (nodeChunks ignoreTtl now nodes) loop.stream loop'.stream loop'.ok
  written : loop'.ok = true → loop'.written = loop.written + (nodes.filter writesNode).length

variable {ignoreTtl : Bool} {now : UInt32} {node : Node} {nodes : List Node} {loop : Loop}

theorem nodeChunks_singleton (hwrites : writesNode node) :
    nodeChunks ignoreTtl now [node] = fieldChunks ignoreTtl now node ++ aaaaChunks node := by
  rw [nodeChunks, filter_cons, if_pos hwrites, filter_nil, flatMap_singleton]
  rfl

theorem looped_writeNode (env : Environment) (part : Bytes) (ignoreTtl : Bool) (now : UInt32) (node : Node)
    (hok : loop.ok) :
    Looped env part ignoreTtl now [node] loop (writeNode env part ignoreTtl now loop node) := by
  cases hwrites : writesNode node with
  | false =>
    have hnone : [node].filter writesNode = [] := by simp [hwrites]
    have hsame : writeNode env part ignoreTtl now loop node = loop := by simp [writeNode, hwrites]
    rw [hsame]
    constructor
    · rw [nodeChunks, hnone, flatMap_nil, hok]
      exact Wrote.nil
    · rw [hnone]
      exact fun _ ↦ rfl
  | true =>
    have hone : ([node].filter writesNode).length = 1 := by simp [hwrites]
    have hfields := wrote_fwriteAll env part (fieldChunks ignoreTtl now node) loop.stream
    rw [writeNode, hwrites]
    generalize loop.stream.fwriteAll env part (fieldChunks ignoreTtl now node) = fields at hfields
    obtain ⟨middle, whole⟩ := fields
    cases whole with
    | false =>
      constructor
      · rw [nodeChunks_singleton hwrites]
        exact hfields.stop (aaaaChunks node)
      · exact fun hwhole ↦ absurd hwhole Bool.false_ne_true
    | true =>
      constructor
      · rw [nodeChunks_singleton hwrites]
        exact hfields.append (wrote_fwriteAll env part (aaaaChunks node) middle)
      · rw [hone]
        exact fun _ ↦ rfl

theorem looped_writeNodes (env : Environment) (part : Bytes) (ignoreTtl : Bool) (now : UInt32)
    (nodes : List Node) (hok : loop.ok) :
    Looped env part ignoreTtl now nodes loop (writeNodes env part ignoreTtl now nodes loop) := by
  induction nodes generalizing loop with
  | nil =>
    constructor
    · rw [writeNodes, hok]
      exact Wrote.nil
    · exact fun _ ↦ rfl
  | cons node nodes ih =>
    have hfirst := looped_writeNode env part ignoreTtl now node hok
    rw [writeNodes, if_pos hok]
    generalize writeNode env part ignoreTtl now loop node = turned at hfirst
    have hchunks : nodeChunks ignoreTtl now (node :: nodes) =
        nodeChunks ignoreTtl now [node] ++ nodeChunks ignoreTtl now nodes := by
      rw [nodeChunks, nodeChunks, nodeChunks, ← flatMap_append, ← filter_append, singleton_append]
    have hcount : ((node :: nodes).filter writesNode).length =
        ([node].filter writesNode).length + (nodes.filter writesNode).length := by
      rw [← length_append, ← filter_append, singleton_append]
    cases hturned : turned.ok with
    | true =>
      have hwrote := hfirst.wrote
      rw [hturned] at hwrote
      have hothers := ih hturned
      constructor
      · rw [hchunks]
        exact hwrote.append hothers.wrote
      · intro hwhole
        rw [hothers.written hwhole, hfirst.written hturned, hcount, Nat.add_assoc]
    | false =>
      have hstopped : writeNodes env part ignoreTtl now nodes turned = turned := by
        cases nodes with
        | nil => rfl
        | cons later nodes => rw [writeNodes, hturned, if_neg Bool.false_ne_true]
      have hwrote := hfirst.wrote
      rw [hturned] at hwrote
      rw [hstopped]
      constructor
      · rw [hchunks, hturned]
        exact hwrote.stop _
      · intro hwhole
        rw [hturned] at hwhole
        cases hwhole

def fileChunks (source : Source) (kept : List Nat) : List Bytes :=
  headerBytes 0 :: nodeChunks source.ignoreTtl source.now (copies source kept)

def recordCount (source : Source) (kept : List Nat) : Nat := ((copies source kept).filter writesNode).length

def newFile (source : Source) (kept : List Nat) : Bytes :=
  fileBytes source.ignoreTtl source.now (copies source kept)

def unpatched (source : Source) (kept : List Nat) : Bytes :=
  headerBytes 0 ++
    ((copies source kept).filter writesNode).flatMap (recordBytes source.ignoreTtl source.now)

theorem flatten_fileChunks (source : Source) (kept : List Nat) :
    (fileChunks source kept).flatten = unpatched source kept := by
  rw [fileChunks, flatten_cons, nodeChunks, flatten_flatMap_recordChunks]
  rfl

theorem patch_unpatched (source : Source) (kept : List Nat) :
    patch kCountOffset (putU32 (UInt32.ofNat (recordCount source kept))) (unpatched source kept) =
      newFile source kept :=
  patch_headerBytes (recordCount source kept) _

/-- The writes that take everything, the one of the count among them if it is made. -/
def TakesAll (env : Environment) (source : Source) (kept : List Nat) : Prop :=
  Takes env.takes (fileChunks source kept) 0 ∧
    (env.seeks = true → 4 ≤ env.takes (fileChunks source kept).length)

structure Streamed (env : Environment) (source : Source) (kept : List Nat) (part : Bytes)
    (storage : Storage) (loop : Loop) : Prop where
  other : ∀ name ≠ part, loop.stream.storage name = storage name
  ok_iff : loop.ok = true ↔ TakesAll env source kept
  content : loop.ok = true → loop.stream.storage part =
    some (if env.seeks then newFile source kept else unpatched source kept)
  written : loop.ok = true → loop.written = recordCount source kept

theorem streamed_patchCount {source : Source} {kept : List Nat} {storage : Storage}
    (hcreated : storage part = some [])
    (hwrote : Wrote env part (fileChunks source kept) ⟨storage, 0⟩ loop.stream loop.ok)
    (hwritten : loop.ok → loop.written = recordCount source kept) :
    Streamed env source kept part storage (patchCount env part loop) := by
  have hcontent : loop.ok = true → loop.stream.storage part = some (unpatched source kept) := by
    intro hok
    rw [hwrote.content hok]
    dsimp only
    rw [hcreated, Option.map_some, nil_append, flatten_fileChunks]
  have hnumber : loop.ok = true → loop.stream.writes = (fileChunks source kept).length := by
    intro hok
    rw [hwrote.writes hok, Nat.zero_add]
  cases hok : loop.ok with
  | false =>
    have hsame : patchCount env part loop = loop := by simp [patchCount, hok]
    rw [hsame]
    refine ⟨hwrote.other, ?_, ?_, ?_⟩
    · rw [hok]
      refine iff_of_false Bool.false_ne_true fun htakes ↦ ?_
      rw [hwrote.whole_iff.mpr htakes.1] at hok
      cases hok
    · exact fun hwhole ↦ absurd (hok.symm.trans hwhole) Bool.false_ne_true
    · exact fun hwhole ↦ absurd (hok.symm.trans hwhole) Bool.false_ne_true
  | true =>
    have htakes := hwrote.whole_iff.mp hok
    cases hseeks : env.seeks with
    | false =>
      have hsame : patchCount env part loop = loop := by simp [patchCount, hseeks]
      rw [hsame]
      refine ⟨hwrote.other, ?_, ?_, hwritten⟩
      · refine iff_of_true hok ⟨htakes, fun h ↦ ?_⟩
        exact absurd (hseeks.symm.trans h) Bool.false_ne_true
      · rw [hseeks]
        exact hcontent
    | true =>
      rw [patchCount, hok, hseeks, Bool.and_self, if_pos rfl]
      refine ⟨?_, ?_, ?_, fun _ ↦ hwritten hok⟩
      · intro name hname
        exact (update_of_ne hname _ _).trans (hwrote.other name hname)
      · rw [hnumber hok, TakesAll, decide_eq_true_iff, length_putU32]
        exact ⟨fun hroom ↦ ⟨htakes, fun _ ↦ hroom⟩, fun hall ↦ hall.2 hseeks⟩
      · intro hroom
        have hall : (putU32 (UInt32.ofNat loop.written)).take (env.takes loop.stream.writes) =
            putU32 (UInt32.ofNat loop.written) :=
          take_of_length_le (of_decide_eq_true hroom)
        dsimp only
        rw [hall, Call.apply, update_self, hcontent hok, Option.map_some, hwritten hok,
          patch_unpatched, hseeks, if_pos rfl]

end DhcpServer.Dns.FailingSaves
