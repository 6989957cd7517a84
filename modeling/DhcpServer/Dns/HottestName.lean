import DhcpServer.Dns.CacheHistory

/-!
# The hottest name

`stats` reports the highest usage counter, and with it the name and the type of a record. The count and
the type are written when the mark is set, the name is copied when it is asked for, out of a node that
may hold another record by then. The report is true exactly where the name that was kept for the mark is
that of a record which set it.
-/

namespace DhcpServer.Dns.InternalCache

open Library List Option

/-! ## stats -/

structure Stats where
  available : Bool
  sizeMb : Nat
  capacity : Nat
  entries : Nat
  counters : Counters
  usesMax : UInt32
  topName : Bytes := []
  topQtype : UInt16 := 0
  usedBytes : Nat
  freeBytes : Nat

/-- The name of the mark after `noteTop`, `topName` before it. -/
def Arena.noteTop (arena : Arena) (topName : Bytes) : Bytes :=
  match arena.top with
  | none => []
  | some top =>
    if arena.nodeCount ≤ top.idx then topName
    else if (arena.nodes top.idx).uses ≠ top.uses then topName
    else (arena.nodes top.idx).name

def Arena.stats (arena : Arena) (sizeMb : Nat) (topName : Bytes) : Stats where
  available := true
  sizeMb
  capacity := arena.nodeCount
  entries := arena.entries
  counters := arena.counters
  usesMax := (arena.top.map TopMark.uses).getD 0
  topName := if arena.top.isSome then arena.noteTop topName else []
  topQtype := (arena.top.map TopMark.qtype).getD 0
  usedBytes := arena.entries * kNodeBytes
  freeBytes := (arena.nodeCount - arena.entries) * kNodeBytes

/-- A cache object with the name it keeps for the mark. The source keeps the counters of the last arena
when it frees it; `moments` is no part of the object, it holds the arenas that every section under the
lock has left since the arena was made or cleared, the newest first. -/
structure Tracked where
  cache : Cache
  topName : Bytes := []
  counters : Counters := {}
  moments : List Arena := []

inductive Request
  | call (call : Call)
  | stats

namespace Tracked

variable (tracked : Tracked)

def initial (ignoreTtl : Bool) : Tracked := { cache := .initial ignoreTtl }

def enable (sizeMb : Nat) (allocated : Bool) : Tracked :=
  let cache := tracked.cache.enable sizeMb allocated
  match tracked.cache.arena, cache.arena with
  | none, some fresh => { tracked with cache, topName := [], moments := [fresh] }
  | _, _ => { tracked with cache }

def disable : Tracked where
  cache := tracked.cache.disable
  counters := (tracked.cache.arena.map Arena.counters).getD tracked.counters

def operate (inet : Inet) (tracked : Tracked) (operation : Operation) : Option Tracked :=
  match tracked.cache.arena with
  | none => some tracked
  | some arena =>
    (arena.step inet tracked.cache.ignoreTtl operation).map fun arena' ↦
      let cache := { tracked.cache with arena := some arena' }
      match operation with
      | .clear => { tracked with cache, topName := [], moments := [arena'] }
      | _ => { tracked with cache, moments := arena' :: tracked.moments }

def report : Stats :=
  match tracked.cache.arena with
  | none =>
    { available := false, sizeMb := tracked.cache.sizeMb, capacity := 0, entries := 0,
      counters := tracked.counters, usesMax := 0, usedBytes := 0, freeBytes := 0 }
  | some arena => arena.stats tracked.cache.sizeMb tracked.topName

def noteTop : Tracked :=
  { tracked with
    topName := (tracked.cache.arena.map fun arena ↦ arena.noteTop tracked.topName).getD [] }

def next (inet : Inet) (tracked : Tracked) : Request → Option Tracked
  | .stats => some tracked.noteTop
  | .call (.enable sizeMb allocated) => some (tracked.enable sizeMb allocated)
  | .call .disable => some tracked.disable
  | .call (.operate operation) => operate inet tracked operation
  | .call (.loadFromFile file clock) =>
    steps (operate inet) tracked (restores inet clock (CacheFile.read file).records)

end Tracked

variable {arena arena' : Arena} {inet : Inet} {ignoreTtl : Bool} {index : Nat}

def Cache.operate (inet : Inet) (cache : Cache) (operation : Operation) : Option Cache :=
  Cache.step inet cache (.operate operation)

/-! ## What an operation does to the mark -/

/-- The mark after `noteMark` of a node. -/
def markAfter (top : Option TopMark) (index : Nat) (node : Node) : Option TopMark :=
  if node.uses = 0 ∨ ∃ mark ∈ top, node.uses < mark.uses then top
  else some ⟨node.uses, node.qtype, index⟩

theorem noteMark_top (arena : Arena) (index : Nat) :
    (arena.noteMark index).top = markAfter arena.top index (arena.nodes index) := by
  unfold Arena.noteMark markAfter
  cases htop : arena.top with
  | none =>
    by_cases hunused : (arena.nodes index).uses = 0 <;> simp [hunused, htop]
  | some top =>
    by_cases hunused : (arena.nodes index).uses = 0
    · simp [hunused, htop]
    · by_cases hfewer : (arena.nodes index).uses < top.uses <;> simp [hunused, hfewer, htop]

theorem bumpUse_top (arena : Arena) (index : Nat) :
    (arena.bumpUse index).top = markAfter arena.top index ((arena.bumpUse index).nodes index) := by
  unfold Arena.bumpUse
  rw [noteMark_top, noteMark_nodes]
  rfl

theorem writeRecord_top (arena : Arena) (inet : Inet) (index : Nat) (payload : Payload) (now : UInt32) :
    (arena.writeRecord inet index payload now).top =
      markAfter arena.top index ((arena.writeRecord inet index payload now).nodes index) := by
  unfold Arena.writeRecord
  cases payload.usesExact with
  | none => exact bumpUse_top _ index
  | some uses =>
    rw [noteMark_top, noteMark_nodes]
    rfl

theorem linkNode_top (arena : Arena) (index : Nat) (hash : UInt32) (name : Bytes) (qtype : UInt16)
    (now : UInt32) : (arena.linkNode index hash name qtype now).top = arena.top := rfl

theorem allocNode_top (arena : Arena) : arena.allocNode.1.top = arena.top := by
  unfold Arena.allocNode
  split <;> rfl

theorem unlinkNode_top {bucket : Nat} (hunlink : arena.unlinkNode bucket index = some arena') :
    arena'.top = arena.top := by
  obtain ⟨previous, -, hprevious⟩ := bind_eq_some_iff.mp hunlink
  rcases previous with _ | _ | before
  · cases hprevious
    rfl
  · cases hprevious
    rfl
  · cases hprevious
    rfl

variable {now : UInt32}

theorem takeNode_top {scanUs : Nat} {found : Option Nat}
    (htake : arena.takeNode now scanUs = some (arena', found)) : arena'.top = arena.top := by
  unfold Arena.takeNode at htake
  split at htake
  next taken index halloc =>
    cases htake
    rw [← allocNode_top arena, halloc]
  next =>
    obtain ⟨⟨victim, scanned⟩, -, hvictim⟩ := bind_eq_some_iff.mp htake
    cases victim with
    | none =>
      cases hvictim
      rfl
    | some victim =>
      obtain ⟨unlinked, hunlink, halloc⟩ := bind_eq_some_iff.mp hvictim
      have htop := unlinkNode_top hunlink
      have hsame := congrArg (fun result ↦ result.1.top) (Option.some.inj halloc)
      exact hsame.symm.trans ((allocNode_top _).trans htop)

/-- What an operation other than `clear` does: where it writes a record, it sets the mark by it. -/
inductive Marks (arena arena' : Arena) : Prop
  | same {gone : Option Nat} :
      Change arena arena' gone none → arena'.top = arena.top → Marks arena arena'
  | written {gone : Option Nat} {index : Nat} :
      Change arena arena' gone (some index) →
      arena'.top = markAfter arena.top index (arena'.nodes index) → Marks arena arena'

variable {domain : Bytes} {qtype : UInt16}

theorem WellFormed.marks_store (hwell : WellFormed arena)
    {payload : Payload} {scanUs : Nat}
    (hstore : arena.storeInternal inet domain qtype payload now scanUs = some arena') :
    Marks arena arena' := by
  by_cases hstorable : Storable domain qtype payload.ips
  · rw [storeInternal_storable hstorable] at hstore
    obtain ⟨found, walked, hfind, hfound⟩ := hwell.findNode (keyName domain, qtype)
    rw [hfind] at hstore
    cases found with
    | some index =>
      cases hstore
      obtain ⟨hchained, -⟩ := (hfound index).mp rfl
      exact .written (hwell.writeRecord hchained inet payload now).change
        (writeRecord_top arena inet index payload now)
    | none =>
      have hnew : arena.recordOf (keyName domain, qtype) = none := by
        simp [Arena.recordOf, hfind]
      obtain ⟨taken, index, old, htake, hstored⟩ :=
        hwell.linkNode (keyName domain, qtype) hnew inet payload now scanUs
      simp only [bind_some, htake, Option.some.injEq] at hstore
      subst hstore
      refine .written hstored.change ?_
      rw [writeRecord_top, linkNode_top, takeNode_top htake]
  · rw [storeInternal_not_storable hstorable] at hstore
    cases hstore
    exact .same (hwell.unchanged (SameShape.refl arena) rfl) rfl

theorem lookup_top {waitUs : Nat}
    {result : Option (List Bytes × UInt32)}
    (hlookup : arena.lookup inet ignoreTtl domain qtype now waitUs = some (arena', result)) :
    result = none ∧ arena'.top = arena.top ∨ result ≠ none ∧ ∃ index walked,
        arena.findNode (hashName (keyName domain)) (keyName domain) qtype = some (some index, walked) ∧
        arena'.top = markAfter arena.top index (arena'.nodes index) := by
  unfold Arena.lookup at hlookup
  split_ifs at hlookup
  · cases hlookup
    exact .inl ⟨rfl, rfl⟩
  · cases hlookup
    exact .inl ⟨rfl, rfl⟩
  obtain ⟨⟨found, walked⟩, hfind, hrest⟩ := bind_eq_some_iff.mp hlookup
  cases found with
  | none =>
    cases hrest
    exact .inl ⟨rfl, rfl⟩
  | some index =>
    dsimp only at hrest
    split_ifs at hrest
    · obtain ⟨purged, hunlink, hpurged⟩ := bind_eq_some_iff.mp hrest
      have htop := unlinkNode_top hunlink
      cases hpurged
      exact .inl ⟨rfl, htop⟩
    · cases hrest
      exact .inl ⟨rfl, rfl⟩
    · cases hrest
      exact .inr ⟨some_ne_none _, index, walked, hfind, bumpUse_top _ index⟩

theorem WellFormed.marks_lookup (hwell : WellFormed arena)
    {waitUs : Nat} {result : Option (List Bytes × UInt32)}
    (hlookup : arena.lookup inet ignoreTtl domain qtype now waitUs = some (arena', result)) :
    Marks arena arena' := by
  by_cases hdomain : Unsearched domain
  · rw [lookup_unsearched hdomain] at hlookup
    cases hlookup
    exact .same (hwell.unchanged (SameShape.refl arena) rfl) rfl
  · obtain ⟨same, result', hsame, hlooked⟩ := hwell.lookup hdomain inet ignoreTtl qtype now waitUs
    obtain ⟨rfl, rfl⟩ := Prod.mk.inj (Option.some.inj (hlookup.symm.trans hsame))
    rcases lookup_top hlookup with ⟨hnone, htop⟩ | ⟨hsome, index, walked, hfind, htop⟩
    · cases hlooked with
      | absent _ hchange => exact .same hchange htop
      | expired _ _ _ _ hchange => exact .same hchange htop
      | blank _ _ _ hchange => exact .same hchange htop
      | hit => cases hnone
    · cases hlooked with
      | absent => exact absurd rfl hsome
      | expired => exact absurd rfl hsome
      | blank => exact absurd rfl hsome
      | hit hchained hkey _ _ hchange _ =>
        obtain ⟨found, seen, hfindKey, hfound⟩ := hwell.findNode (keyName domain, qtype)
        obtain ⟨rfl, -⟩ := Prod.mk.inj (Option.some.inj (hfind.symm.trans hfindKey))
        obtain rfl := Option.some.inj ((hfound _).mpr ⟨hchained, hkey⟩)
        exact .written hchange htop

theorem erase_top {found : Bool}
    (herase : arena.erase domain qtype = some (arena', found)) : arena'.top = arena.top := by
  unfold Arena.erase at herase
  split_ifs at herase
  · cases herase
    rfl
  obtain ⟨⟨index, walked⟩, -, hrest⟩ := bind_eq_some_iff.mp herase
  cases index with
  | none =>
    cases hrest
    rfl
  | some index =>
    obtain ⟨unlinked, hunlink, hunlinked⟩ := bind_eq_some_iff.mp hrest
    cases hunlinked
    exact unlinkNode_top hunlink

theorem WellFormed.marks (hwell : WellFormed arena) {operation : Operation} (hclear : operation ≠ .clear)
    (hstep : arena.step inet ignoreTtl operation = some arena') : Marks arena arena' := by
  obtain ⟨⟨same, answer⟩, hperform, rfl⟩ := map_eq_some_iff.mp hstep
  cases operation with
  | store domain qtype payload time scanUs =>
    obtain ⟨stored, hstore, hstored⟩ := map_eq_some_iff.mp hperform
    cases hstored
    exact hwell.marks_store hstore
  | lookup domain qtype time waitUs =>
    obtain ⟨⟨looked, result⟩, hlookup, hlooked⟩ := map_eq_some_iff.mp hperform
    cases hlooked
    exact hwell.marks_lookup hlookup
  | erase domain qtype =>
    obtain ⟨⟨erased, found⟩, herase, herased⟩ := map_eq_some_iff.mp hperform
    cases herased
    have htop := erase_top herase
    obtain ⟨after, answered, hafter, hcases⟩ := hwell.erase domain qtype
    obtain ⟨rfl, rfl⟩ := Prod.mk.inj (Option.some.inj (herase.symm.trans hafter))
    rcases hcases with ⟨-, index, -, -, hchange⟩ | ⟨-, hsame, -⟩
    · exact .same hchange htop
    · exact .same (hwell.unchanged (hsame ▸ SameShape.refl _) (congrArg Arena.nodes hsame)) htop
  | clear => exact absurd rfl hclear

/-! ## Records and marks over time -/

abbrev Leader := Key × UInt32

/-- The record behind the mark, while its node holds the count of the mark. -/
def Arena.leader (arena : Arena) : Option Leader :=
  arena.top.bind fun top ↦
    if (arena.nodes top.idx).uses = top.uses then
      some (((arena.nodes top.idx).name, top.qtype), top.uses)
    else none

def Had (moments : List Arena) (leader : Leader) : Prop :=
  ∃ moment ∈ moments, ∃ index, moment.Chained index ∧ (moment.nodes index).key = leader.1 ∧
    (moment.nodes index).uses = leader.2

def Led (moments : List Arena) (leader : Leader) : Prop := ∃ moment ∈ moments, moment.leader = some leader

/-- What `stats` says of the hottest name is true of a record of some moment. -/
def Stats.Real (stats : Stats) (moments : List Arena) : Prop :=
  stats.topName ≠ [] → Had moments ((stats.topName, stats.topQtype), stats.usesMax)

/-- The node of the mark still holds its count, or there is no name yet, or the name is that of a record
that the mark was at with the count and the type it has now. -/
def Arena.KnowsMark (arena : Arena) (topName : Bytes) (moments : List Arena) : Prop :=
  ∀ top ∈ arena.top, (arena.nodes top.idx).uses = top.uses ∨ topName = [] ∨
    Led moments ((topName, top.qtype), top.uses)

def Tracked.KnowsMark (tracked : Tracked) : Prop :=
  ∀ arena ∈ tracked.cache.arena, arena.KnowsMark tracked.topName tracked.moments

/-- The marks of all moments were real, and each count that was reached has been marked, unless a greater
one was there before it. -/
structure Remembers (arena : Arena) (moments : List Arena) : Prop where
  wellFormed : WellFormed arena
  present : arena ∈ moments
  idx_lt : ∀ top ∈ arena.top, top.idx < arena.nodeCount
  used : ∀ top ∈ arena.top, top.uses ≠ 0
  real : ∀ leader, Led moments leader → Had moments leader
  marked : ∀ leader, Had moments leader →
    leader.2 = 0 ∨ Led moments leader ∨ ∃ top ∈ arena.top, leader.2 < top.uses

variable {moments : List Arena} {leader : Leader}

theorem Had.cons (hhad : Had moments leader) (arena : Arena) : Had (arena :: moments) leader := by
  obtain ⟨moment, hmoment, hrecord⟩ := hhad
  exact ⟨moment, mem_cons_of_mem arena hmoment, hrecord⟩

theorem Led.cons (hled : Led moments leader) (arena : Arena) : Led (arena :: moments) leader := by
  obtain ⟨moment, hmoment, hleader⟩ := hled
  exact ⟨moment, mem_cons_of_mem arena hmoment, hleader⟩

theorem markAfter_cases (mark : Option TopMark) (index : Nat) (node : Node) :
    (markAfter mark index node = mark ∧ (node.uses = 0 ∨ ∃ top ∈ mark, node.uses < top.uses)) ∨
      (markAfter mark index node = some ⟨node.uses, node.qtype, index⟩ ∧ node.uses ≠ 0 ∧
        ∀ top ∈ mark, top.uses ≤ node.uses) := by
  unfold markAfter
  split_ifs with hkept
  · exact .inl ⟨rfl, hkept⟩
  · simp only [not_or, not_exists, not_and] at hkept
    exact .inr ⟨rfl, hkept.1, fun top htop ↦ UInt32.not_lt.mp (hkept.2 top htop)⟩

theorem Change.had {gone written : Option Nat} (hchange : Change arena arena' gone written)
    (hpresent : arena ∈ moments) (hindex : written ≠ some index) (hchained : arena'.Chained index) :
    Had moments ((arena'.nodes index).key, (arena'.nodes index).uses) := by
  have hrecord := (hchange.record index hindex).symm
  refine ⟨arena, hpresent, index, (((hchange.chained index).mp hchained).resolve_left hindex).1, ?_, ?_⟩
  · simpa [Node.record, Node.key] using congrArg Node.key hrecord
  · simpa [Node.record] using congrArg Node.uses hrecord

theorem Change.leader_eq {gone written : Option Nat} (hchange : Change arena arena' gone written)
    (hmark : arena'.top = arena.top) (hother : ∀ top ∈ arena.top, written ≠ some top.idx) :
    arena'.leader = arena.leader := by
  unfold Arena.leader
  rw [hmark]
  cases htop : arena.top with
  | none => rfl
  | some top =>
    have hrecord := hchange.record top.idx (hother top htop)
    have hname : (arena'.nodes top.idx).name = (arena.nodes top.idx).name := by
      simpa [Node.record] using congrArg Node.name hrecord
    have huses : (arena'.nodes top.idx).uses = (arena.nodes top.idx).uses := by
      simpa [Node.record] using congrArg Node.uses hrecord
    simp only [bind_some, hname, huses]

theorem Remembers.step (hremembers : Remembers arena moments) (hwell : WellFormed arena')
    (hidx : ∀ top ∈ arena'.top, top.idx < arena'.nodeCount) (hused : ∀ top ∈ arena'.top, top.uses ≠ 0)
    (hgrows : ∀ top ∈ arena.top, ∃ top' ∈ arena'.top, top.uses ≤ top'.uses)
    (hleader : arena'.leader = arena.leader ∨ ∀ leader ∈ arena'.leader, Had [arena'] leader)
    (hrecords : ∀ index, arena'.Chained index →
      Had moments ((arena'.nodes index).key, (arena'.nodes index).uses) ∨ (arena'.nodes index).uses = 0 ∨
        arena'.leader = some ((arena'.nodes index).key, (arena'.nodes index).uses) ∨
        ∃ top ∈ arena'.top, (arena'.nodes index).uses < top.uses) :
    Remembers arena' (arena' :: moments) := by
  refine ⟨hwell, mem_cons_self, hidx, hused, ?_, ?_⟩
  · rintro leader ⟨moment, hmoment, hled⟩
    rcases mem_cons.mp hmoment with rfl | hmoment
    · rcases hleader with hsame | hnew
      · exact (hremembers.real leader ⟨arena, hremembers.present, hsame.symm.trans hled⟩).cons _
      · obtain ⟨moment', hmoment', hrecord⟩ := hnew leader hled
        obtain rfl := mem_singleton.mp hmoment'
        exact ⟨moment', mem_cons_self, hrecord⟩
    · exact (hremembers.real leader ⟨moment, hmoment, hled⟩).cons _
  · have hold : ∀ leader, Had moments leader →
        leader.2 = 0 ∨ Led (arena' :: moments) leader ∨ ∃ top ∈ arena'.top, leader.2 < top.uses := by
      intro leader hhad
      rcases hremembers.marked leader hhad with hzero | hled | ⟨top, htop, hless⟩
      · exact .inl hzero
      · exact .inr (.inl (hled.cons _))
      · obtain ⟨top', htop', hle⟩ := hgrows top htop
        exact .inr (.inr ⟨top', htop', UInt32.lt_of_lt_of_le hless hle⟩)
    rintro ⟨key, uses⟩ ⟨moment, hmoment, index, hchained, rfl, rfl⟩
    rcases mem_cons.mp hmoment with rfl | hmoment
    · rcases hrecords index hchained with hhad | hzero | hled | hless
      · exact hold _ hhad
      · exact .inl hzero
      · exact .inr (.inl ⟨_, mem_cons_self, hled⟩)
      · exact .inr (.inr hless)
    · exact hold _ ⟨moment, hmoment, index, hchained, rfl, rfl⟩

theorem WellFormed.chained_lt (hwell : WellFormed arena) (hchained : arena.Chained index) :
    index < arena.nodeCount := by
  obtain ⟨chains, free, hlayout⟩ := hwell
  exact hlayout.lt_nodeCount (hlayout.chained_iff.mp hchained)

theorem Remembers.marks (hremembers : Remembers arena moments) (hmarks : Marks arena arena') :
    Remembers arena' (arena' :: moments) := by
  cases hmarks with
  | same hchange hmark =>
    apply hremembers.step hchange.wellFormed
    · rw [hmark, hchange.nodeCount]
      exact hremembers.idx_lt
    · rw [hmark]
      exact hremembers.used
    · exact fun top htop ↦ ⟨top, hmark ▸ htop, UInt32.le_refl _⟩
    · exact .inl (hchange.leader_eq hmark (by simp))
    · exact fun index hchained ↦ .inl (hchange.had hremembers.present (by simp) hchained)
  | @written gone index hchange hmark =>
    have hchained : arena'.Chained index := (hchange.chained index).mpr (.inl rfl)
    have hothers (other : Nat) (hother : arena'.Chained other) (hne : index ≠ other) :
        Had moments ((arena'.nodes other).key, (arena'.nodes other).uses) :=
      hchange.had hremembers.present (by simpa using hne) hother
    rcases markAfter_cases arena.top index (arena'.nodes index) with
      ⟨hkept, hfewer⟩ | ⟨hset, hused, hmost⟩
    · rw [hkept] at hmark
      apply hremembers.step hchange.wellFormed
      · rw [hmark, hchange.nodeCount]
        exact hremembers.idx_lt
      · rw [hmark]
        exact hremembers.used
      · exact fun top htop ↦ ⟨top, hmark ▸ htop, UInt32.le_refl _⟩
      · by_cases hmarked : ∃ top ∈ arena.top, top.idx = index
        · -- the node of the mark was written with fewer uses
          obtain ⟨top, htop, rfl⟩ := hmarked
          have hless : (arena'.nodes top.idx).uses ≠ top.uses := by
            rcases hfewer with hzero | ⟨same, hsame, hless⟩
            · exact hzero ▸ (hremembers.used top htop).symm
            · obtain rfl := mem_unique hsame htop
              exact fun hequal ↦ UInt32.lt_irrefl _ (hequal ▸ hless)
          right
          simp [Arena.leader, hmark, mem_def.mp htop, hless]
        · refine .inl (hchange.leader_eq hmark fun top htop hsame ↦ hmarked ⟨top, htop, ?_⟩)
          exact (Option.some.inj hsame).symm
      · intro other hother
        by_cases hne : index = other
        · subst hne
          rcases hfewer with hzero | ⟨top, htop, hless⟩
          · exact .inr (.inl hzero)
          · exact .inr (.inr (.inr ⟨top, hmark ▸ htop, hless⟩))
        · exact .inl (hothers other hother hne)
    · rw [hset] at hmark
      have hleader : arena'.leader = some ((arena'.nodes index).key, (arena'.nodes index).uses) := by
        simp [Arena.leader, hmark, Node.key]
      apply hremembers.step hchange.wellFormed
      · rw [hmark]
        rintro _ ⟨rfl⟩
        exact hchange.wellFormed.chained_lt hchained
      · rw [hmark]
        rintro _ ⟨rfl⟩
        exact hused
      · exact fun top htop ↦ ⟨_, hmark, hmost top htop⟩
      · right
        rw [hleader]
        rintro _ ⟨rfl⟩
        exact ⟨arena', mem_singleton_self _, index, hchained, rfl, rfl⟩
      · intro other hother
        by_cases hne : index = other
        · subst hne
          exact .inr (.inr (.inl hleader))
        · exact .inl (hothers other hother hne)

theorem Cache.enable_top {cache : Cache} {sizeMb : Nat} {allocated : Bool} (hnone : cache.arena = none)
    (hfresh : (cache.enable sizeMb allocated).arena = some arena) : arena.top = none := by
  unfold Cache.enable at hfresh
  rw [hnone] at hfresh
  dsimp only at hfresh
  split_ifs at hfresh
  · exact absurd (hnone.symm.trans hfresh) (by simp)
  · cases hfresh
    rfl

theorem Vacant.remembers (hvacant : Vacant arena) (hmark : arena.top = none) : Remembers arena [arena] := by
  constructor
  · exact hvacant.wellFormed
  · exact mem_singleton_self arena
  · simp [hmark]
  · simp [hmark]
  · rintro leader ⟨moment, hmoment, hled⟩
    obtain rfl := mem_singleton.mp hmoment
    simp [Arena.leader, hmark] at hled
  · rintro leader ⟨moment, hmoment, index, hchained, -⟩
    obtain rfl := mem_singleton.mp hmoment
    exact absurd hchained (hvacant.not_chained index)

theorem Remembers.real_iff (hremembers : Remembers arena moments) (sizeMb : Nat) (topName : Bytes) :
    (arena.stats sizeMb topName).Real moments ↔ arena.KnowsMark topName moments := by
  unfold Stats.Real Arena.KnowsMark
  cases htop : arena.top with
  | none => simp [Arena.stats, htop]
  | some top =>
    have hidx : ¬arena.nodeCount ≤ top.idx := not_le.mpr (hremembers.idx_lt top htop)
    by_cases huses : (arena.nodes top.idx).uses = top.uses
    · have hleader : arena.leader = some (((arena.nodes top.idx).name, top.qtype), top.uses) := by
        simp [Arena.leader, htop, huses]
      have hreal := hremembers.real _ ⟨arena, hremembers.present, hleader⟩
      simpa [Arena.stats, Arena.noteTop, htop, hidx, huses] using fun _ ↦ hreal
    · simp only [Arena.stats, Arena.noteTop, htop, hidx, huses, isSome_some, map_some,
        getD_some, if_true, if_false, not_false_eq_true, ne_eq, mem_some_iff,
        forall_eq', false_or]
      constructor
      · intro hreal
        by_cases hnone : topName = []
        · exact .inl hnone
        · -- a record with the count of the mark has set it
          rcases hremembers.marked _ (hreal hnone) with hzero | hled | ⟨same, hsame, hless⟩
          · exact absurd hzero (hremembers.used top htop)
          · exact .inr hled
          · obtain rfl := mem_unique hsame htop
            exact absurd hless (UInt32.lt_irrefl _)
      · rintro (hnone | hled) hsome
        · exact absurd hnone hsome
        · exact hremembers.real _ hled

/-! ## Every run -/

namespace Tracked

variable {tracked : Tracked} {operation : Operation}

def Remembers (tracked : Tracked) : Prop :=
  ∀ arena ∈ tracked.cache.arena, InternalCache.Remembers arena tracked.moments

section

variable (hremembers : tracked.Remembers)
include hremembers

theorem Remembers.operate (inet : Inet) (operation : Operation) :
    ∃ after, Tracked.operate inet tracked operation = some after ∧ after.Remembers := by
  cases harena : tracked.cache.arena with
  | none => exact ⟨tracked, by simp [Tracked.operate, harena], hremembers⟩
  | some arena =>
    have hbefore := hremembers arena harena
    obtain ⟨arena', hstep, -⟩ := hbefore.wellFormed.step inet tracked.cache.ignoreTtl operation
    cases operation with
    | clear =>
      cases hstep
      refine ⟨_, by simp only [Tracked.operate, harena]; rfl, ?_⟩
      rintro _ ⟨rfl⟩
      exact hbefore.wellFormed.clear.remembers rfl
    | store | lookup | erase =>
      refine ⟨_, by simp only [Tracked.operate, harena, hstep]; rfl, ?_⟩
      rintro _ ⟨rfl⟩
      exact hbefore.marks (hbefore.wellFormed.marks (by simp) hstep)

theorem Remembers.enable (sizeMb : Nat) (allocated : Bool) :
    (tracked.enable sizeMb allocated).Remembers := by
  have hcache : (tracked.enable sizeMb allocated).cache = tracked.cache.enable sizeMb allocated := by
    unfold Tracked.enable
    dsimp only
    split <;> rfl
  intro arena harena
  rw [hcache] at harena
  cases hbefore : tracked.cache.arena with
  | some before =>
    have hmoments : (tracked.enable sizeMb allocated).moments = tracked.moments := by
      simp [Tracked.enable, hbefore]
    have hsame : (tracked.cache.enable sizeMb allocated).arena = tracked.cache.arena := by
      simp [Cache.enable, hbefore]
    rw [hmoments]
    exact hremembers arena (hsame ▸ harena)
  | none =>
    have hmoments : (tracked.enable sizeMb allocated).moments = [arena] := by
      simp [Tracked.enable, hbefore, mem_def.mp harena]
    rw [hmoments]
    rcases tracked.cache.enable_arena sizeMb allocated with hsame | ⟨fresh, hfresh, hvacant, -⟩
    · rw [hsame, hbefore] at harena
      cases harena
    · obtain rfl := mem_unique hfresh harena
      exact hvacant.remembers (Cache.enable_top hbefore hfresh)

theorem Remembers.next (inet : Inet) (request : Request) :
    ∃ after, Tracked.next inet tracked request = some after ∧ after.Remembers := by
  cases request with
  | stats => exact ⟨tracked.noteTop, rfl, hremembers⟩
  | call call =>
    cases call with
    | enable sizeMb allocated => exact ⟨_, rfl, hremembers.enable sizeMb allocated⟩
    | disable =>
      refine ⟨_, rfl, ?_⟩
      rintro arena ⟨⟩
    | operate operation => exact hremembers.operate inet operation
    | loadFromFile file clock =>
      have hkeep : ∀ before operation, Tracked.Remembers before →
          ∃ after, Tracked.operate inet before operation = some after ∧ after.Remembers :=
        fun before operation hbefore ↦ hbefore.operate inet operation
      exact exists_steps hkeep hremembers _

theorem Remembers.real_iff :
    tracked.report.Real tracked.moments ↔ tracked.KnowsMark := by
  unfold KnowsMark report
  cases harena : tracked.cache.arena with
  | none => simp [Stats.Real]
  | some arena => simpa using (hremembers arena harena).real_iff tracked.cache.sizeMb tracked.topName

end

theorem exists_remembers (inet : Inet) (ignoreTtl : Bool) (requests : List Request) :
    ∃ tracked, steps (Tracked.next inet) (Tracked.initial ignoreTtl) requests = some tracked ∧
      tracked.Remembers := by
  have hinitial : (Tracked.initial ignoreTtl).Remembers := by
    rintro arena ⟨⟩
  exact exists_steps (fun tracked request hremembers ↦ hremembers.next inet request) hinitial requests

end Tracked

/-- Whatever is asked of a new cache object, it answers, and what `stats` reports then is true of a record
exactly where it knows the mark. -/
theorem hottest_name_real_iff (inet : Inet) (ignoreTtl : Bool) (requests : List Request) :
    ∃ tracked, steps (Tracked.next inet) (Tracked.initial ignoreTtl) requests = some tracked ∧
      (tracked.report.Real tracked.moments ↔ tracked.KnowsMark) := by
  obtain ⟨tracked, hsteps, hremembers⟩ := Tracked.exists_remembers inet ignoreTtl requests
  exact ⟨tracked, hsteps, hremembers.real_iff⟩

instance (moments : List Arena) (leader : Leader) : Decidable (Led moments leader) := by
  unfold Led
  infer_instance

instance (arena : Arena) (topName : Bytes) (moments : List Arena) :
    Decidable (arena.KnowsMark topName moments) := by
  unfold Arena.KnowsMark
  infer_instance

instance (tracked : Tracked) : Decidable tracked.KnowsMark := by
  unfold Tracked.KnowsMark
  infer_instance

def use (name : UInt8) : Request := .call (.operate (.store [name] kTypeA ⟨[sampleText], 60, none⟩ 5 0))

/-- One use of a record, reported; two uses of another, which is erased, and one of a third in its node. -/
def mixedUp : List Request :=
  [.call (.enable 1 true), use 0x61, .stats, use 0x62, use 0x62, .call (.operate (.erase [0x62] kTypeA)),
    use 0x63]

/-- The name of the first record is reported with the count of the second. -/
theorem hottest_name_mixed_up : ∃ tracked ∈ steps (Tracked.next sampleInet) (Tracked.initial false) mixedUp,
      tracked.report.topName = [0x61] ∧ tracked.report.usesMax = 2 ∧
        ¬tracked.report.Real tracked.moments := by
  have hreported : ∃ tracked ∈ steps (Tracked.next sampleInet) (Tracked.initial false) mixedUp,
      tracked.report.topName = [0x61] ∧ tracked.report.usesMax = 2 ∧ ¬tracked.KnowsMark := by
    decide +kernel
  obtain ⟨tracked, hsteps, hname, huses, hunknown⟩ := hreported
  obtain ⟨same, hsame, hremembers⟩ := Tracked.exists_remembers sampleInet false mixedUp
  obtain rfl := mem_unique hsame hsteps
  exact ⟨same, hsteps, hname, huses, fun hreal ↦ hunknown (hremembers.real_iff.mp hreal)⟩

end DhcpServer.Dns.InternalCache
