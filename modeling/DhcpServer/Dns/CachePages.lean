import DhcpServer.Dns.CacheRoundTrip
import DhcpServer.Library.Pages

/-!
# The cache view

What the cache page asks the built-in cache for (`CacheEntryView.h`) and the walk that answers it:
the records are filtered by a substring of the name and by the type, and those of one page are
copied. A record is shown with the arithmetic of one reading of the clock.

Every page is cut out of the same list, the records that match in the order of the walk. A record
whose name starts with a zero byte has no name to the walk and is on no page.
-/

namespace DhcpServer.Dns.InternalCache

open Library

def kCacheViewMaxA : Nat := 16
def kCacheViewMaxAaaa : Nat := 8
def kCacheViewPageSize : Nat := 100
def kCacheViewMaxPageSize : Nat := 200

/-- One record as the page shows it; the addresses are as many as `a4Count` and `a6Count` say. -/
structure CacheEntryView where
  name : Bytes
  qtype : UInt16
  a4 : List V4
  a6 : List V6
  ttl : UInt32
  remaining : UInt32
  age : UInt32
  uses : UInt32
  expired : Bool

/-- What the operator asked for; no name and type 0 ask for every record. -/
structure CacheEntryQuery where
  name : Bytes := []
  qtype : UInt16 := 0
  offset : Nat := 0
  limit : Nat := kCacheViewPageSize

structure CacheEntryPage where
  available : Bool := false
  total : Nat := 0
  offset : Nat := 0
  limit : Nat := 0
  scanned : Nat := 0
  items : List CacheEntryView := []

/-- `strstr` finds the text of the filter in the name. -/
def cacheEntryMatches (name : Bytes) (qtype : UInt16) (query : CacheEntryQuery) : Bool :=
  if query.qtype ≠ 0 ∧ qtype ≠ query.qtype then false
  else if query.name.isEmpty then true
  else decide (cString query.name <:+: name)

/-- 0 is "unset", and there is a ceiling. -/
def cacheViewClampLimit (limit : Nat) : Nat :=
  if limit = 0 then kCacheViewPageSize
  else if kCacheViewMaxPageSize < limit then kCacheViewMaxPageSize else limit

def fillEntryView (ignoreTtl : Bool) (node : Node) (now : UInt32) : CacheEntryView :=
  let age := elapsedMs now node.storedMs / 1000
  { name := node.name
    qtype := node.qtype
    a4 := node.a4.toList.take (min node.nA kCacheViewMaxA)
    a6 := node.a6.toList.take (min node.nAaaa kCacheViewMaxAaaa)
    ttl := node.ttl
    remaining := if node.ttl ≤ age then 0 else node.ttl - age
    age
    uses := node.uses
    expired := !ignoreTtl && node.ttl != 0 && node.ttl ≤ age }

/-- One node of the walk of `entries`; the number counts the records that match. -/
def considerEntryView (arena : Arena) (ignoreTtl : Bool) (query : CacheEntryQuery) (now : UInt32)
    (walk : CacheEntryPage × Nat) (index : Nat) : CacheEntryPage × Nat :=
  let node := arena.nodes index
  let (page, matched) := walk
  if node.name.isEmpty then (page, matched)
  else
    let page := { page with scanned := page.scanned + 1 }
    if !cacheEntryMatches node.name node.qtype query then (page, matched)
    else if page.offset ≤ matched ∧ page.items.length < page.limit then
      ({ page with items := page.items ++ [fillEntryView ignoreTtl node now] }, matched + 1)
    else (page, matched + 1)

/-- `entries`. -/
def entries (ignoreTtl : Bool) (now : UInt32) (arena : Option Arena) (query : CacheEntryQuery) :
    Option CacheEntryPage :=
  match arena with
  | none => some {}
  | some arena =>
    let page : CacheEntryPage :=
      { available := true, limit := cacheViewClampLimit query.limit, offset := query.offset }
    (foldAll arena.link (fun _ ↦ considerEntryView arena ignoreTtl query now) arena.nodeCount arena.buckets
      arena.numBuckets (page, 0)).map fun (page, matched) ↦ { page with total := matched }

theorem cacheViewClampLimit_pos (limit : Nat) : 0 < cacheViewClampLimit limit := by
  unfold cacheViewClampLimit
  split_ifs with hunset hceiling
  · decide
  · decide
  · exact Nat.pos_of_ne_zero hunset

open List

variable {arena : Arena} {chains : Nat → List Nat} {free : List Nat} {ignoreTtl : Bool}
  {query : CacheEntryQuery} {now : UInt32} {index : Nat}

def shownNodes (arena : Arena) (query : CacheEntryQuery) (members : List Nat) : List Nat :=
  members.filter fun index ↦
    !(arena.nodes index).name.isEmpty &&
      cacheEntryMatches (arena.nodes index).name (arena.nodes index).qtype query

def viewOf (arena : Arena) (ignoreTtl : Bool) (now : UInt32) (index : Nat) : CacheEntryView :=
  fillEntryView ignoreTtl (arena.nodes index) now

def walkedPage (arena : Arena) (ignoreTtl : Bool) (query : CacheEntryQuery) (now : UInt32) (limit : Nat)
    (members : List Nat) : CacheEntryPage where
  available := true
  offset := query.offset
  limit := limit
  scanned := (members.filter fun index ↦ !(arena.nodes index).name.isEmpty).length
  items := (pageOf query.offset limit (shownNodes arena query members)).map (viewOf arena ignoreTtl now)

theorem walkedPage_nil (limit : Nat) : walkedPage arena ignoreTtl query now limit [] =
    { available := true, limit := limit, offset := query.offset } := by
  simp [walkedPage, shownNodes, pageOf]

theorem foldl_considerEntryView (limit : Nat) (members : List Nat) :
    members.foldl (considerEntryView arena ignoreTtl query now)
        (walkedPage arena ignoreTtl query now limit [], 0) =
      (walkedPage arena ignoreTtl query now limit members, (shownNodes arena query members).length) := by
  induction members using reverseRecOn with
  | nil => rfl
  | append_singleton members index ih =>
    rw [foldl_concat, ih]
    by_cases hname : (arena.nodes index).name.isEmpty
    · simp [considerEntryView, walkedPage, shownNodes, hname]
    · by_cases hmatches : cacheEntryMatches (arena.nodes index).name (arena.nodes index).qtype query
      · have hshown : shownNodes arena query (members ++ [index]) =
            shownNodes arena query members ++ [index] := by
          simp [shownNodes, hname, hmatches]
        by_cases hwindow : query.offset ≤ (shownNodes arena query members).length ∧
            (pageOf query.offset limit (shownNodes arena query members)).length < limit
        · simp [considerEntryView, walkedPage, hname, hmatches, hshown, pageOf_concat, hwindow, viewOf]
        · simp [considerEntryView, walkedPage, hname, hmatches, hshown, pageOf_concat, hwindow]
      · simp [considerEntryView, walkedPage, shownNodes, hname, hmatches]

theorem exists_shown (hwell : WellFormed arena) (ignoreTtl : Bool) (query : CacheEntryQuery) :
    ∃ members : List Nat, members.Nodup ∧
      (∀ index, index ∈ members ↔ arena.Chained index ∧ (arena.nodes index).name ≠ [] ∧
        cacheEntryMatches (arena.nodes index).name (arena.nodes index).qtype query) ∧
      ∀ offset now, ∃ page, entries ignoreTtl now (some arena) { query with offset } = some page ∧
        page.total = members.length ∧ page.limit = cacheViewClampLimit query.limit ∧
        page.items = (pageOf offset (cacheViewClampLimit query.limit) members).map
          (viewOf arena ignoreTtl now) := by
  obtain ⟨chains, free, hlayout⟩ := hwell
  refine ⟨shownNodes arena query (allMembers arena.numBuckets chains), hlayout.nodup_members.filter _, ?_, ?_⟩
  · intro index
    rw [shownNodes, mem_filter, hlayout.chained_iff, Bool.and_eq_true, Bool.not_eq_true',
      isEmpty_eq_false_iff]
  · intro offset now
    let asked : CacheEntryQuery := { query with offset }
    let limit := cacheViewClampLimit query.limit
    let members := allMembers arena.numBuckets chains
    have hscan := foldAll_members hlayout.chain (fun _ ↦ hlayout.length_le)
      (considerEntryView arena ignoreTtl asked now) (walkedPage arena ignoreTtl asked now limit [], 0)
    rw [foldl_considerEntryView, walkedPage_nil] at hscan
    refine ⟨{ walkedPage arena ignoreTtl asked now limit members with
      total := (shownNodes arena asked members).length }, ?_, rfl, rfl, rfl⟩
    rw [entries]
    rw [hscan]
    rfl

def CacheEntryView.key (view : CacheEntryView) : Key := (view.name, view.qtype)

def matchingKeys (arena : Arena) (query : CacheEntryQuery) : Set Key :=
  {key | (arena.recordOf key).isSome ∧ cacheEntryMatches key.1 key.2 query = true}

/-- The records with the wanted keys on pages of one size. -/
structure ShownOnce (arena : Arena) (ignoreTtl : Bool) (clock : Nat → UInt32) (limit : Nat) (wanted : Set Key)
    (pages : Nat → CacheEntryPage) : Prop where
  once : ∀ count, wanted.ncard ≤ count * limit →
    (((List.range count).flatMap fun number ↦ (pages number).items).map CacheEntryView.key).Nodup ∧
      ∀ key, key ∈ ((List.range count).flatMap fun number ↦ (pages number).items).map CacheEntryView.key ↔
        key ∈ wanted
  record : ∀ number, ∀ view ∈ (pages number).items, ∃ record, arena.recordOf view.key = some record ∧
    view = fillEntryView ignoreTtl record (clock number)
  total : ∀ number, (pages number).total = wanted.ncard
  last : ∀ number, (pages number).items.length < limit → ∀ later, number < later → (pages later).items = []

/-- What the pages of a query show, one `entries` after the other with nothing changed in between. -/
def ShowsOnce (arena : Arena) (ignoreTtl : Bool) (query : CacheEntryQuery) (clock : Nat → UInt32)
    (wanted : Set Key) : Prop :=
  ∃ pages : Nat → CacheEntryPage,
    (∀ number, entries ignoreTtl (clock number) (some arena)
      { query with offset := number * cacheViewClampLimit query.limit } = some (pages number)) ∧
    ShownOnce arena ignoreTtl clock (cacheViewClampLimit query.limit) wanted pages

/-- The pages show every matching record that has a name once. -/
theorem pages_show_once (arena : Arena) (hwell : WellFormed arena) (ignoreTtl : Bool)
    (query : CacheEntryQuery) (clock : Nat → UInt32) :
    ShowsOnce arena ignoreTtl query clock {key ∈ matchingKeys arena query | key.1 ≠ []} := by
  obtain ⟨members, hnodup, hmembers, hpages⟩ := exists_shown hwell ignoreTtl query
  let limit := cacheViewClampLimit query.limit
  choose pages hentries htotal hlimit hitems using fun number ↦ hpages (number * limit) (clock number)
  have hlists : Lists arena (fun key ↦ cacheEntryMatches key.1 key.2 query = true ∧ key.1 ≠ []) members := by
    constructor
    · exact hnodup
    · intro index
      rw [hmembers, and_comm (a := (arena.nodes index).name ≠ [])]
      rfl
  have hset : {key ∈ matchingKeys arena query | key.1 ≠ []} =
      {key | (arena.recordOf key).isSome ∧ cacheEntryMatches key.1 key.2 query = true ∧ key.1 ≠ []} := by
    ext key
    exact and_assoc
  have hkeys : (members.map fun index ↦ (arena.nodes index).key).Nodup := hlists.nodup_keys hwell
  have hcard : {key ∈ matchingKeys arena query | key.1 ≠ []}.ncard = members.length := by
    rw [hset, hlists.ncard hwell]
  refine ⟨pages, hentries, ?_, ?_, ?_, ?_⟩
  · intro count hcount
    have hshown : ((List.range count).flatMap fun number ↦ (pages number).items).map CacheEntryView.key =
        members.map fun index ↦ (arena.nodes index).key := by
      calc ((List.range count).flatMap fun number ↦ (pages number).items).map CacheEntryView.key
          = ((List.range count).flatMap fun number ↦ pageOf (number * limit) limit members).map
              fun index ↦ (arena.nodes index).key := by
            simp only [hitems, map_flatMap, map_map]
            rfl
        _ = (members.take (count * limit)).map fun index ↦ (arena.nodes index).key := by
            rw [flatMap_pageOf]
        _ = members.map fun index ↦ (arena.nodes index).key := by
            rw [take_of_length_le (hcard ▸ hcount)]
    rw [hshown]
    refine ⟨hkeys, fun key ↦ ?_⟩
    rw [hlists.mem_keys hwell, hset]
    rfl
  · intro number view hview
    rw [hitems, mem_map] at hview
    obtain ⟨index, hindex, rfl⟩ := hview
    have hmember : index ∈ members := mem_of_mem_drop (mem_of_mem_take hindex)
    refine ⟨(arena.nodes index).record, ?_, rfl⟩
    exact hwell.recordOf_chained ((hmembers index).mp hmember).1
  · intro number
    rw [htotal, hcard]
  · intro number hshort later hlater
    have hless : (number + 1) * limit ≤ later * limit := Nat.mul_le_mul_right limit hlater
    rw [Nat.succ_mul] at hless
    rw [hitems, length_map, length_pageOf] at hshort
    have hnone : (pageOf (later * limit) limit members).length = 0 := by
      rw [length_pageOf]
      omega
    rw [hitems, length_eq_zero_iff.mp hnone, map_nil]

/-- A cache of one record. -/
theorem pages_show_once_single : ∃ cache arena,
      steps (Cache.step sampleInet) (Cache.initial false)
        [.enable 1 true, .operate (.store [0x61] kTypeA ⟨[sampleText], 60, none⟩ 5 0)] = some cache ∧
      cache.arena = some arena ∧
      ShowsOnce arena false {} (fun _ ↦ nowMs 1005) {key ∈ matchingKeys arena {} | key.1 ≠ []} := by
  have hstorable : Storable [0x61] kTypeA [sampleText] := by decide
  obtain ⟨cache, arena, fresh, index, old, hsteps, harena, -, hstored⟩ :=
    CacheFile.exists_single_store sampleInet ⟨[sampleText], 60, none⟩ hstorable 5
  exact ⟨cache, arena, hsteps, harena,
    pages_show_once arena hstored.change.wellFormed false {} fun _ ↦ nowMs 1005⟩

/-- A record whose name starts with a zero byte is on no page, though no filter is given. -/
theorem blank_name_not_shown : ∃ cache arena,
      steps (Cache.step sampleInet) (Cache.initial false)
        [.enable 1 true, .operate (.store [0, 0x61] kTypeA ⟨[sampleText], 60, none⟩ 5 0)] = some cache ∧
      cache.arena = some arena ∧
      ¬ShowsOnce arena false {} (fun _ ↦ nowMs 1005) (matchingKeys arena {}) := by
  have hstorable : Storable [0, 0x61] kTypeA [sampleText] := by decide
  obtain ⟨cache, arena, fresh, index, old, hsteps, harena, -, hstored⟩ :=
    CacheFile.exists_single_store sampleInet ⟨[sampleText], 60, none⟩ hstorable 5
  refine ⟨cache, arena, hsteps, harena, ?_⟩
  rintro ⟨pages, hentries, hshown⟩
  obtain ⟨same, hsame, hnamed⟩ :=
    pages_show_once arena hstored.change.wellFormed false {} fun _ ↦ nowMs 1005
  obtain rfl : pages = same := by
    funext number
    exact Option.some.inj ((hentries number).symm.trans (hsame number))
  let wanted := matchingKeys arena {}
  let named := {key ∈ matchingKeys arena {} | key.1 ≠ []}
  have hlimit : 0 < cacheViewClampLimit (CacheEntryQuery.limit {}) := cacheViewClampLimit_pos _
  have hroom : wanted.ncard + named.ncard ≤
      (wanted.ncard + named.ncard) * cacheViewClampLimit (CacheEntryQuery.limit {}) :=
    Nat.le_mul_of_pos_right _ hlimit
  have hblank : (keyName [0, 0x61], kTypeA) ∈ wanted := by
    refine ⟨?_, rfl⟩
    rw [hstored.recordOf_self, Option.isSome_some]
  have hpaged :=
    ((hshown.once (wanted.ncard + named.ncard) ((Nat.le_add_right _ _).trans hroom)).2 _).mpr hblank
  have hname := ((hnamed.once (wanted.ncard + named.ncard) ((Nat.le_add_left _ _).trans hroom)).2 _).mp hpaged
  exact hname.2 rfl

end DhcpServer.Dns.InternalCache
