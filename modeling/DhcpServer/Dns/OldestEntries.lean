import DhcpServer.Dns.CacheHistory
import DhcpServer.Dns.CacheRecords
import DhcpServer.Library.BoundedHeap

/-!
# What oldestEntries returns

The heap of `oldestEntries` is popped whenever it holds more than it may, and what `priority_queue`
pops is the largest age. So the records that stay are the youngest, drained oldest first. They are
the oldest ones only where nothing is popped, or where all records are of the same age.
-/

/-!
## The sweep of the auto-update

A sweep asks upstream for the records of the cache in blocks: first the records that failed in the
previous sweep, then what `oldestEntries` returns. It keeps no list of what it has asked. The clock,
the answers of upstream and the moments at which the sweep finds itself stopped or switched off are
inputs; nothing but the sweep touches the cache.
-/

namespace DhcpServer.Dns.CacheAutoUpdate

open Library InternalCache

def autoUpdateBlockCount (records batch : Nat) : Nat :=
  if records = 0 ∨ batch = 0 then 0 else (records + batch - 1) / batch

def autoUpdatePauseAfterBlock (blockIndex blockCount : Nat) : Bool := decide (blockIndex + 1 < blockCount)

def contains (arena : Arena) (domain : Bytes) (qtype : UInt16) : Bool :=
  domain ≠ [] &&
    (arena.findNode (hashName (keyName domain)) (keyName domain) qtype).any fun found ↦ found.1.isSome

/-- One node of the scan; an age and an index are compared in this order. -/
def considerEntry (arena : Arena) (max : Nat) (skip : Key → Bool) (now : UInt32)
    (heap : List (Nat ×ₗ Nat)) (index : Nat) : List (Nat ×ₗ Nat) :=
  if skip (arena.nodes index).key then heap
  else pushBounded max heap (toLex ((elapsedMs now (arena.nodes index).storedMs).toNat, index))

def oldestEntries (arena : Arena) (max : Nat) (skip : Key → Bool) (now : UInt32) : Option (List Key) :=
  if max = 0 then some []
  else
    (foldAll arena.link (fun _ ↦ considerEntry arena max skip now) arena.nodeCount arena.buckets
      arena.numBuckets []).map fun heap ↦ heap.map fun entry ↦ (arena.nodes (ofLex entry).2).key

def kMaxPending : Nat := 256

def isPending (pending : List Key) (key : Key) : Bool := pending.contains key

def rememberFailed (pending : List Key) (key : Key) : List Key :=
  if isPending pending key then pending
  else (if kMaxPending ≤ pending.length then pending.tail else pending) ++ [key]

def forgetFailed (pending : List Key) (key : Key) : List Key := pending.erase key

/-! ## The sweep -/

structure Settings where
  batch : Nat
  pauseSec : Nat

structure Reply where
  found : Bool
  ips : List Bytes
  ttl : UInt32
  tookMs : Nat
  scanUs : Nat

/-- What a sweep meets: whether `refresh_` is set and the job registry has room, the answers, what the
sweep reads at each of its looks at `enabled_` and of its questions about a stop, and by how much a
delay of a second is longer. -/
structure Environment where
  hasRefresh : Bool
  registryRoom : Bool
  reply : Nat → Reply
  enabled : Nat → Bool
  cancelled : Nat → Bool
  lateMs : Nat → Nat

structure Sweep where
  arena : Arena
  pending : List Key
  time : Nat
  asked : List Key
  looks : Nat
  stops : Nat
  delays : Nat

def Sweep.look (sweep : Sweep) : Sweep := { sweep with looks := sweep.looks + 1 }

def Sweep.stopIfAsked (sweep : Sweep) : Sweep := { sweep with stops := sweep.stops + 1 }

def Sweep.delay (env : Environment) (sweep : Sweep) : Sweep :=
  { sweep with time := sweep.time + 1000 + env.lateMs sweep.delays, delays := sweep.delays + 1 }

def ask (inet : Inet) (env : Environment) (sweep : Sweep) (item : Key) : Option Sweep :=
  let reply := env.reply sweep.asked.length
  let time := sweep.time + reply.tookMs
  if reply.found && !reply.ips.isEmpty then
    (sweep.arena.storeInternal inet item.1 item.2 ⟨reply.ips, reply.ttl, none⟩ (nowMs time)
      reply.scanUs).map fun arena ↦
      { sweep with
        arena := arena
        time := time
        asked := sweep.asked ++ [item]
        pending := forgetFailed sweep.pending item }
  else
    some { sweep with
      time := time
      asked := sweep.asked ++ [item]
      pending := rememberFailed sweep.pending item }

/-- The loop over a plan; the answer says whether the sweep has returned. -/
def askPlan (inet : Inet) (env : Environment) : List Key → Sweep → Option (Sweep × Bool)
  | [], sweep => some (sweep, false)
  | item :: rest, sweep =>
    if env.enabled sweep.looks = false then some (sweep.look, false)
    else do
      let sweep ← ask inet env sweep.look item
      if env.cancelled sweep.stops then return (sweep.stopIfAsked, true)
      else askPlan inet env rest sweep.stopIfAsked

def pauseFor (env : Environment) : Nat → Sweep → Sweep × Bool
  | 0, sweep => (sweep, false)
  | seconds + 1, sweep =>
    if env.enabled sweep.looks = false then (sweep.look, false)
    else if env.cancelled sweep.look.stops then (sweep.look.stopIfAsked, true)
    else pauseFor env seconds (sweep.look.stopIfAsked.delay env)

/-- The loop over the records that failed before: the plan and what is left of them. -/
def takeRetries (arena : Arena) (batch : Nat) : List Key → List Key → List Key × List Key
  | plan, [] => (plan, [])
  | plan, item :: retry =>
    if plan.length < batch then
      takeRetries arena batch (if contains arena item.1 item.2 then plan ++ [item] else plan) retry
    else (plan, item :: retry)

def planBlock (settings : Settings) (sweep : Sweep) (taken : List Key) : Option (List Key) :=
  if taken.length < settings.batch then
    (oldestEntries sweep.arena (settings.batch - taken.length) (isPending sweep.pending)
      (nowMs sweep.time)).map (taken ++ ·)
  else some taken

/-- How a block ends: the next one follows, the loop is left, or the sweep has returned. -/
inductive Flow
  | next
  | leave
  | returned

def afterPlan (settings : Settings) (env : Environment) (block blocks : Nat) : Sweep × Bool → Sweep × Flow
  | (sweep, true) => (sweep, .returned)
  | (sweep, false) =>
    if autoUpdatePauseAfterBlock block blocks then
      match pauseFor env settings.pauseSec sweep with
      | (sweep, true) => (sweep, .returned)
      | (sweep, false) => (sweep, .next)
    else (sweep, .next)

def runBlock (inet : Inet) (settings : Settings) (env : Environment) (block blocks : Nat)
    (taken : List Key) (sweep : Sweep) : Option (Sweep × Flow) := do
  let plan ← planBlock settings sweep taken
  if plan = [] then return (sweep, .leave)
  else return afterPlan settings env block blocks (← askPlan inet env plan sweep)

def runBlocks (inet : Inet) (settings : Settings) (env : Environment) (blocks : Nat) :
    (left : Nat) → List Key → Sweep → Option (Sweep × Bool)
  | 0, _, sweep => some (sweep, false)
  | left + 1, retry, sweep =>
    if env.enabled sweep.looks = false then some (sweep.look, false)
    else do
      let (taken, retry) := takeRetries sweep.arena settings.batch [] retry
      match ← runBlock inet settings env (blocks - (left + 1)) blocks taken sweep.look with
      | (sweep, .next) => runBlocks inet settings env blocks left retry sweep
      | (sweep, .leave) => return (sweep, false)
      | (sweep, .returned) => return (sweep, true)

inductive Outcome
  | skipped
  | done
  | cancelled

structure Result where
  asked : List Key
  pending : List Key
  looks : Nat
  stops : Nat
  outcome : Outcome

def Sweep.result (sweep : Sweep) (outcome : Outcome) : Result :=
  ⟨sweep.asked, sweep.pending, sweep.looks, sweep.stops, outcome⟩

/-- After the blocks, unless the sweep has returned from one of them. -/
def finishSweep (env : Environment) : Sweep × Bool → Result
  | (sweep, true) => sweep.result .cancelled
  | (sweep, false) => sweep.look.result (if env.enabled sweep.looks then .done else .cancelled)

def runSweep (inet : Inet) (settings : Settings) (env : Environment) (cache : Cache)
    (pending : List Key) (time : Nat) : Option Result :=
  match cache.arena with
  | none => some ⟨[], pending, 0, 0, .skipped⟩
  | some arena =>
    let blocks := autoUpdateBlockCount arena.entries settings.batch
    if env.hasRefresh = false ∨ cache.ignoreTtl = false ∨ blocks = 0 ∨ env.registryRoom = false then
      some ⟨[], pending, 0, 0, .skipped⟩
    else
      -- `retry` takes what was pending, and the sweep starts with nothing pending
      (runBlocks inet settings env blocks blocks pending ⟨arena, [], time, [], 0, 0, 0⟩).map
        (finishSweep env)

/-- The sweep was told to end: at one of its looks the update was switched off, or a stop was asked
for at one of its questions. -/
def Disturbed (env : Environment) (looks stops : Nat) : Prop :=
  (∃ look < looks, env.enabled look = false) ∨ ∃ stop < stops, env.cancelled stop = true

/-- Whatever upstream answers and whenever the sweep is told to end: a sweep that is not asks for every
record of the cache once, and one that is keeps the records that were pending and have not been
tried. -/
def Covers (inet : Inet) (settings : Settings) (arena : Arena) (pending : List Key) (time : Nat) : Prop :=
  ∀ cache env, cache.arena = some arena → cache.ignoreTtl = true → env.hasRefresh = true →
    env.registryRoom = true →
    ∃ result, runSweep inet settings env cache pending time = some result ∧
      (¬Disturbed env result.looks result.stops →
        ∀ key, (arena.recordOf key).isSome → result.asked.count key = 1) ∧
      (Disturbed env result.looks result.stops →
        ∀ key ∈ pending, contains arena key.1 key.2 → key ∉ result.asked → key ∈ result.pending)

def DistinctTimes (arena : Arena) : Prop :=
  ∀ key other record record', arena.recordOf key = some record → arena.recordOf other = some record' →
    record.storedMs = record'.storedMs → key = other

end DhcpServer.Dns.CacheAutoUpdate

namespace DhcpServer.Dns.CacheAutoUpdate

open Library InternalCache

variable {arena : Arena} {max : Nat} {skip : Key → Bool} {now : UInt32} {key : Key} {keys : List Key}

/-- The age of a record; one that is less than 2^32 ms old is that old. -/
def ageOf (now : UInt32) (record : Node) : Nat := (elapsedMs now record.storedMs).toNat

def entryOf (arena : Arena) (now : UInt32) (index : Nat) : Nat ×ₗ Nat :=
  toLex (ageOf now (arena.nodes index), index)

def indexOf (entry : Nat ×ₗ Nat) : Nat := (ofLex entry).2

@[simp] theorem indexOf_entryOf (index : Nat) : indexOf (entryOf arena now index) = index := rfl

theorem age_le_of_entryOf_le {index other : Nat}
    (hle : entryOf arena now index ≤ entryOf arena now other) :
    ageOf now (arena.nodes index) ≤ ageOf now (arena.nodes other) := by
  rcases Prod.Lex.le_iff.mp hle with hless | ⟨hequal, -⟩
  · exact hless.le
  · exact hequal.le

def eligible (arena : Arena) (skip : Key → Bool) (members : List Nat) : List Nat :=
  members.filter fun index ↦ !skip (arena.nodes index).key

theorem oldestEntries_eq {chains : Nat → List Nat} {free : List Nat}
    (hlayout : Layout arena chains free []) (hmax : max ≠ 0) (skip : Key → Bool) (now : UInt32) :
    oldestEntries arena max skip now =
      some ((((eligible arena skip (allMembers arena.numBuckets chains)).map (entryOf arena now)).foldl
        (pushBounded max) []).map fun entry ↦ (arena.nodes (indexOf entry)).key) := by
  have hscan := foldAll_members hlayout.chain (fun _ ↦ hlayout.length_le)
    (considerEntry arena max skip now) []
  have hstep : considerEntry arena max skip now = fun heap index ↦
      if (!skip (arena.nodes index).key) = true then pushBounded max heap (entryOf arena now index)
      else heap := by
    funext heap index
    unfold considerEntry
    cases skip (arena.nodes index).key <;> rfl
  rw [oldestEntries, if_neg hmax, hscan, Option.map_some, eligible, List.foldl_map, List.foldl_filter, hstep]
  rfl

theorem exists_split (members : List Nat) (arena : Arena) (now : UInt32) (max : Nat) :
    ∃ kept dropped : List Nat,
      ((members.map (entryOf arena now)).foldl (pushBounded max) []).map indexOf = kept ∧
      (kept ++ dropped).Perm members ∧ kept.length = min max members.length ∧
      kept.Pairwise (fun index later ↦ ageOf now (arena.nodes later) ≤ ageOf now (arena.nodes index)) ∧
      ∀ index ∈ kept, ∀ other ∈ dropped,
        ageOf now (arena.nodes index) ≤ ageOf now (arena.nodes other) := by
  obtain ⟨dropped, hleast⟩ := exists_least max (members.map (entryOf arena now))
  generalize (members.map (entryOf arena now)).foldl (pushBounded max) [] = heap at hleast ⊢
  have hback : ∀ entry ∈ heap ++ dropped, entryOf arena now (indexOf entry) = entry := by
    intro entry hentry
    obtain ⟨index, -, rfl⟩ := List.mem_map.mp (hleast.perm.mem_iff.mp hentry)
    rfl
  refine ⟨_, dropped.map indexOf, rfl, ?_, ?_, ?_, ?_⟩
  · have hperm := hleast.perm.map indexOf
    rwa [List.map_append, List.map_map, (funext fun _ ↦ rfl : indexOf ∘ entryOf arena now = id),
      List.map_id] at hperm
  · rw [List.length_map, hleast.length, List.length_map]
  · rw [List.pairwise_map]
    refine hleast.sorted.imp_of_mem fun {entry later} hentry hlater hge ↦ ?_
    apply age_le_of_entryOf_le
    rw [hback entry (List.mem_append_left _ hentry), hback later (List.mem_append_left _ hlater)]
    exact hge
  · intro index hindex other hother
    obtain ⟨entry, hentry, rfl⟩ := List.mem_map.mp hindex
    obtain ⟨later, hlater, rfl⟩ := List.mem_map.mp hother
    apply age_le_of_entryOf_le
    rw [hback entry (List.mem_append_left _ hentry), hback later (List.mem_append_right _ hlater)]
    exact hleast.least entry hentry later hlater

/-- The nodes of the records returned, and those of the others that are not skipped. -/
structure Selected (arena : Arena) (max : Nat) (skip : Key → Bool) (now : UInt32)
    (kept dropped : List Nat) : Prop where
  nodup : (kept ++ dropped).Nodup
  mem : ∀ index, index ∈ kept ++ dropped ↔ arena.Chained index ∧ skip (arena.nodes index).key = false
  length : kept.length = min max (kept ++ dropped).length
  sorted : kept.Pairwise fun index later ↦ ageOf now (arena.nodes later) ≤ ageOf now (arena.nodes index)
  younger : ∀ index ∈ kept, ∀ other ∈ dropped, ageOf now (arena.nodes index) ≤ ageOf now (arena.nodes other)

theorem exists_selected (hwell : WellFormed arena) (max : Nat) (skip : Key → Bool) (now : UInt32) :
    ∃ kept dropped, Selected arena max skip now kept dropped ∧
      oldestEntries arena max skip now = some (kept.map fun index ↦ (arena.nodes index).key) := by
  obtain ⟨chains, free, hlayout⟩ := hwell
  have hmembers (index : Nat) : index ∈ eligible arena skip (allMembers arena.numBuckets chains) ↔
      arena.Chained index ∧ skip (arena.nodes index).key = false := by
    rw [eligible, List.mem_filter, hlayout.chained_iff, Bool.not_eq_true']
  have hnodup : (eligible arena skip (allMembers arena.numBuckets chains)).Nodup :=
    hlayout.nodup_members.filter _
  by_cases hmax : max = 0
  · refine ⟨[], eligible arena skip (allMembers arena.numBuckets chains), ⟨hnodup, hmembers, ?_, ?_, ?_⟩, ?_⟩
    · rw [hmax, Nat.zero_min, List.length_nil]
    · exact List.Pairwise.nil
    · exact fun index hindex ↦ absurd hindex List.not_mem_nil
    · rw [oldestEntries, if_pos hmax, List.map_nil]
  · obtain ⟨kept, dropped, hkept, hperm, hlength, hsorted, hyounger⟩ :=
      exists_split (eligible arena skip (allMembers arena.numBuckets chains)) arena now max
    refine ⟨kept, dropped, ⟨?_, ?_, ?_, hsorted, hyounger⟩, ?_⟩
    · exact hperm.nodup_iff.mpr hnodup
    · intro index
      rw [hperm.mem_iff, hmembers]
    · rw [hlength, hperm.length_eq]
    · rw [oldestEntries_eq hlayout hmax, ← hkept, List.map_map]
      rfl

/-! ## The oldest records -/

def candidates (arena : Arena) (skip : Key → Bool) : Set Key :=
  {key | (arena.recordOf key).isSome ∧ skip key = false}

def keyAge (arena : Arena) (now : UInt32) (key : Key) : Nat := (arena.recordOf key).elim 0 (ageOf now)

/-- The oldest of the records that are not skipped, oldest first. -/
structure Oldest (arena : Arena) (max : Nat) (skip : Key → Bool) (now : UInt32) (keys : List Key) :
    Prop where
  nodup : keys.Nodup
  candidate : ∀ key ∈ keys, key ∈ candidates arena skip
  length : keys.length = min max (candidates arena skip).ncard
  older : ∀ kept ∈ keys, ∀ other ∈ candidates arena skip, other ∉ keys →
    keyAge arena now other ≤ keyAge arena now kept
  sorted : keys.Pairwise fun key later ↦ keyAge arena now later ≤ keyAge arena now key

def OneAge (arena : Arena) (skip : Key → Bool) (now : UInt32) : Prop :=
  ∀ key ∈ candidates arena skip, ∀ other ∈ candidates arena skip,
    keyAge arena now key = keyAge arena now other

theorem keyAge_of_chained {index : Nat} (hwell : WellFormed arena) (hchained : arena.Chained index) :
    keyAge arena now (arena.nodes index).key = ageOf now (arena.nodes index) := by
  rw [keyAge, hwell.recordOf_chained hchained]
  rfl

namespace Selected

variable {kept dropped : List Nat}

section

variable (hsel : Selected arena max skip now kept dropped)
include hsel

theorem lists : Lists arena (fun key ↦ skip key = false) (kept ++ dropped) := ⟨hsel.nodup, hsel.mem⟩

section

variable (hwell : WellFormed arena)
include hwell

theorem mem_candidates :
    key ∈ candidates arena skip ↔ key ∈ (kept ++ dropped).map fun index ↦ (arena.nodes index).key :=
  (hsel.lists.mem_keys hwell).symm

theorem nodup_keys :
    ((kept ++ dropped).map fun index ↦ (arena.nodes index).key).Nodup :=
  hsel.lists.nodup_keys hwell

theorem ncard : (candidates arena skip).ncard = (kept ++ dropped).length :=
  hsel.lists.ncard hwell

theorem keyAge
    {index : Nat} (hindex : index ∈ kept ++ dropped) :
    CacheAutoUpdate.keyAge arena now (arena.nodes index).key = ageOf now (arena.nodes index) :=
  keyAge_of_chained hwell ((hsel.mem index).mp hindex).1

theorem oldest_of_dropped
    (hdropped : ∀ index ∈ kept, ∀ other ∈ dropped,
      ageOf now (arena.nodes other) ≤ ageOf now (arena.nodes index)) :
    Oldest arena max skip now (kept.map fun index ↦ (arena.nodes index).key) := by
  have hkeys := hsel.nodup_keys hwell
  rw [List.map_append, List.nodup_append] at hkeys
  refine ⟨hkeys.1, ?_, ?_, ?_, ?_⟩
  · intro key hkey
    rw [hsel.mem_candidates hwell, List.map_append]
    exact List.mem_append_left _ hkey
  · rw [List.length_map, hsel.ncard hwell, hsel.length]
  · intro key hkey other hother hleft
    obtain ⟨index, hindex, rfl⟩ := List.mem_map.mp hkey
    rw [hsel.mem_candidates hwell, List.map_append] at hother
    obtain ⟨later, hlater, rfl⟩ := List.mem_map.mp ((List.mem_append.mp hother).resolve_left hleft)
    rw [hsel.keyAge hwell (List.mem_append_left _ hindex),
      hsel.keyAge hwell (List.mem_append_right _ hlater)]
    exact hdropped index hindex later hlater
  · rw [List.pairwise_map]
    refine hsel.sorted.imp_of_mem fun {index later} hindex hlater hle ↦ ?_
    rw [hsel.keyAge hwell (List.mem_append_left _ hindex),
      hsel.keyAge hwell (List.mem_append_left _ hlater)]
    exact hle

theorem oneAge_of_oldest
    (hkept : kept ≠ []) (hleft : dropped ≠ [])
    (holdest : Oldest arena max skip now (kept.map fun index ↦ (arena.nodes index).key)) :
    OneAge arena skip now := by
  have hkeys := hsel.nodup_keys hwell
  rw [List.map_append, List.nodup_append] at hkeys
  have hequal : ∀ index ∈ kept, ∀ other ∈ dropped,
      ageOf now (arena.nodes index) = ageOf now (arena.nodes other) := by
    intro index hindex other hother
    have hcandidate : (arena.nodes other).key ∈ candidates arena skip := by
      rw [hsel.mem_candidates hwell]
      exact List.mem_map_of_mem (List.mem_append_right _ hother)
    have hout : (arena.nodes other).key ∉ kept.map fun index ↦ (arena.nodes index).key :=
      fun hin ↦ hkeys.2.2 _ hin _ (List.mem_map_of_mem hother) rfl
    have holder := holdest.older _ (List.mem_map_of_mem hindex) _ hcandidate hout
    rw [hsel.keyAge hwell (List.mem_append_left _ hindex),
      hsel.keyAge hwell (List.mem_append_right _ hother)] at holder
    exact le_antisymm (hsel.younger index hindex other hother) holder
  obtain ⟨first, hfirst⟩ := List.exists_mem_of_ne_nil kept hkept
  obtain ⟨last, hlast⟩ := List.exists_mem_of_ne_nil dropped hleft
  have hone : ∀ key ∈ candidates arena skip,
      CacheAutoUpdate.keyAge arena now key = ageOf now (arena.nodes first) := by
    intro key hkey
    rw [hsel.mem_candidates hwell] at hkey
    obtain ⟨index, hindex, rfl⟩ := List.mem_map.mp hkey
    rw [hsel.keyAge hwell hindex]
    rcases List.mem_append.mp hindex with hin | hout
    · exact (hequal index hin last hlast).trans (hequal first hfirst last hlast).symm
    · exact (hequal first hfirst index hout).symm
  intro key hkey other hother
  rw [hone key hkey, hone other hother]

end

end

end Selected

/-- `oldestEntries` returns the oldest records exactly when it returns none or all of those that are not
skipped, or these are all of one age. -/
theorem oldestEntries_oldest_iff (arena : Arena) (hwell : WellFormed arena) (max : Nat)
    (skip : Key → Bool) (now : UInt32) :
    (∃ keys, oldestEntries arena max skip now = some keys ∧ Oldest arena max skip now keys) ↔
      max = 0 ∨ (candidates arena skip).ncard ≤ max ∨ OneAge arena skip now := by
  obtain ⟨kept, dropped, hsel, hkeys⟩ := exists_selected hwell max skip now
  have hlength := hsel.length
  have hcard := hsel.ncard hwell
  rw [List.length_append] at hlength hcard
  constructor
  · rintro ⟨keys, hsame, holdest⟩
    obtain rfl := Option.mem_unique hkeys hsame
    by_cases hall : max = 0 ∨ (candidates arena skip).ncard ≤ max
    · exact or_assoc.mp (.inl hall)
    · obtain ⟨hmax, hmany⟩ := not_or.mp hall
      have hkept : kept ≠ [] := List.ne_nil_of_length_pos (by omega)
      have hdropped : dropped ≠ [] := List.ne_nil_of_length_pos (by omega)
      exact .inr (.inr (hsel.oneAge_of_oldest hwell hkept hdropped holdest))
  · intro hcase
    refine ⟨_, hkeys, hsel.oldest_of_dropped hwell ?_⟩
    intro index hindex other hother
    have hsome : 0 < kept.length := List.length_pos_of_mem hindex
    have hleft : 0 < dropped.length := List.length_pos_of_mem hother
    rcases hcase with hnone | hall | hone
    · omega
    · omega
    · have hcandidate : ∀ node ∈ kept ++ dropped, (arena.nodes node).key ∈ candidates arena skip := by
        intro node hnode
        rw [hsel.mem_candidates hwell]
        exact List.mem_map_of_mem hnode
      have hequal := hone _ (hcandidate other (List.mem_append_right _ hother)) _
        (hcandidate index (List.mem_append_left _ hindex))
      rw [hsel.keyAge hwell (List.mem_append_left _ hindex),
        hsel.keyAge hwell (List.mem_append_right _ hother)] at hequal
      exact hequal.le

def sampleKey : Key := ([0x61], kTypeA)

def laterKey : Key := ([0x62], kTypeA)

def sampleCalls : List Call :=
  [.enable 1 true, .operate (.store [0x61] kTypeA ⟨[sampleText], 60, none⟩ 1000 0),
    .operate (.store [0x62] kTypeA ⟨[sampleText], 60, none⟩ 4000 0)]

def sampleCache : Option Cache := steps (Cache.step sampleInet) (Cache.initial true) sampleCalls

theorem exists_sampleArena :
    ∃ cache arena, sampleCache = some cache ∧ cache.arena = some arena ∧ WellFormed arena ∧
      oldestEntries arena 1 (fun _ ↦ false) 60000 = some [laterKey] ∧
      keyAge arena 60000 sampleKey = 59000 ∧ keyAge arena 60000 laterKey = 56000 := by
  have hbuilt : (sampleCache.bind Cache.arena).isSome := by decide +kernel
  have hkeys : (sampleCache.bind Cache.arena).bind (oldestEntries · 1 (fun _ ↦ false) 60000) =
      some [laterKey] := by decide +kernel
  have hages : (sampleCache.bind Cache.arena).map (fun arena ↦
      (keyAge arena 60000 sampleKey, keyAge arena 60000 laterKey)) = some (59000, 56000) := by decide +kernel
  obtain ⟨arena, hbound⟩ := Option.isSome_iff_exists.mp hbuilt
  rw [hbound] at hkeys hages
  obtain ⟨cache, hcache, harena⟩ := Option.bind_eq_some_iff.mp hbound
  obtain ⟨hsample, hlater⟩ := Prod.mk.inj (Option.some.inj hages)
  have htidy : Tidy arena := tidy_of_steps hcache arena harena
  exact ⟨cache, arena, hcache, harena, htidy.wellFormed, hkeys, hsample, hlater⟩

theorem oldestEntries_oldest_iff_two : ∃ arena, WellFormed arena ∧
      ((∃ keys, oldestEntries arena 1 (fun _ ↦ false) 60000 = some keys ∧
          Oldest arena 1 (fun _ ↦ false) 60000 keys) ↔
        1 = 0 ∨ (candidates arena fun _ ↦ false).ncard ≤ 1 ∨ OneAge arena (fun _ ↦ false) 60000) := by
  obtain ⟨cache, arena, -, -, hwell, -⟩ := exists_sampleArena
  exact ⟨arena, hwell, oldestEntries_oldest_iff arena hwell 1 (fun _ ↦ false) 60000⟩

/-- Asked for one of two records, the younger one is returned. -/
theorem younger_is_returned : ∃ cache arena, sampleCache = some cache ∧ cache.arena = some arena ∧
      oldestEntries arena 1 (fun _ ↦ false) 60000 = some [laterKey] ∧
      ¬∃ keys, oldestEntries arena 1 (fun _ ↦ false) 60000 = some keys ∧
        Oldest arena 1 (fun _ ↦ false) 60000 keys := by
  obtain ⟨cache, arena, hcache, harena, -, hkeys, hsample, hlater⟩ := exists_sampleArena
  refine ⟨cache, arena, hcache, harena, hkeys, ?_⟩
  rintro ⟨keys, hsame, holdest⟩
  obtain rfl := Option.mem_unique hkeys hsame
  have hcandidate : sampleKey ∈ candidates arena fun _ ↦ false := by
    refine ⟨?_, rfl⟩
    by_contra hnone
    rw [keyAge, Option.not_isSome_iff_eq_none.mp hnone] at hsample
    cases hsample
  have holder := holdest.older laterKey (List.mem_singleton_self laterKey) sampleKey hcandidate (by decide)
  rw [hsample, hlater] at holder
  exact absurd holder (by decide)

end DhcpServer.Dns.CacheAutoUpdate
