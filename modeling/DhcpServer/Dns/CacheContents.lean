import DhcpServer.Dns.CacheLayout
import Mathlib.Data.Set.Card

/-!
# The built-in cache as a map

`recordOf` is what a search finds for a key. On a well-formed arena every operation returns, keeps
the arena well formed and changes this map as one would expect: a store overwrites one key and may
evict another one, `erase` and the purge of an expired record take a key out, a hit counts a use.
-/

namespace DhcpServer.Dns.InternalCache

open Library List Option Function

variable {arena arena' : Arena} {chains : Nat → List Nat} {free hand : List Nat}
  {index bucket : Nat} {key : Key}

/-! ## Searching -/

theorem Layout.findNode (hlayout : Layout arena chains free hand) (key : Key) :
    ∃ found walked, arena.findNode (hashName key.1) key.1 key.2 = some (found, walked) ∧
      ∀ index, found = some index ↔
        index ∈ allMembers arena.numBuckets chains ∧ (arena.nodes index).key = key := by
  obtain ⟨name, qtype⟩ := key
  let bucket := arena.bucketOf (hashName name)
  have hbucket : bucket < arena.numBuckets := Nat.mod_lt _ hlayout.numBuckets_pos
  let test := arena.matchesKey (hashName name) name qtype
  obtain ⟨walked, hwalk⟩ := (hlayout.chain bucket hbucket).findFrom test (hlayout.length_le hbucket) 0
  refine ⟨(chains bucket).find? test, walked, hwalk, fun index ↦ ?_⟩
  have hkey : ∀ other, test other = true → (arena.nodes other).key = (name, qtype) := by
    intro other htest
    simp only [test, Arena.matchesKey, Bool.and_eq_true, beq_iff_eq] at htest
    rw [Node.key, htest.1.2, htest.2]
  constructor
  · intro hfound
    have hmem : index ∈ chains bucket := mem_of_find?_eq_some hfound
    exact ⟨mem_allMembers.mpr ⟨bucket, hbucket, hmem⟩, hkey index (find?_some hfound)⟩
  · rintro ⟨hmem, hindex⟩
    obtain ⟨other, hother, hchained⟩ := mem_allMembers.mp hmem
    obtain ⟨hplace, hhash⟩ := hlayout.placed other hother index hchained
    simp only [Node.key, Prod.mk.injEq] at hindex
    rw [hindex.1] at hhash
    have hsame : other = bucket := by rw [← hplace, hhash]
    subst hsame
    have htest : test index := by
      simp [test, Arena.matchesKey, hhash, hindex.1, hindex.2]
    obtain ⟨first, hfirst⟩ := find?_isSome.mpr ⟨index, hchained, htest⟩ |> isSome_iff_exists.mp
    have hfirstKey := hkey first (find?_some hfirst)
    simp only [Node.key, Prod.mk.injEq] at hfirstKey
    have hfirstMem := mem_allMembers.mpr ⟨_, hother, mem_of_find?_eq_some hfirst⟩
    rw [hfirst, hlayout.distinct first hfirstMem index hmem (hfirstKey.1.trans hindex.1.symm)
      (hfirstKey.2.trans hindex.2.symm)]

/-- The node is in one of the chains: its record is in the cache. -/
def Arena.Chained (arena : Arena) (index : Nat) : Prop :=
  ∃ bucket < arena.numBuckets, ∃ members,
    Chain arena.link (arena.buckets bucket) members ∧ index ∈ members

theorem Layout.chained_iff (hlayout : Layout arena chains free hand) :
    arena.Chained index ↔ index ∈ allMembers arena.numBuckets chains := by
  rw [mem_allMembers]
  constructor
  · rintro ⟨bucket, hbucket, members, hchain, hmem⟩
    exact ⟨bucket, hbucket, (hlayout.chain bucket hbucket).unique hchain ▸ hmem⟩
  · rintro ⟨bucket, hbucket, hmem⟩
    exact ⟨bucket, hbucket, chains bucket, hlayout.chain bucket hbucket, hmem⟩

def Arena.recordOf (arena : Arena) (key : Key) : Option Node :=
  (arena.findNode (hashName key.1) key.1 key.2).bind fun found ↦
    found.1.map fun index ↦ (arena.nodes index).record

section

variable (hwell : WellFormed arena)
include hwell

theorem WellFormed.findNode (key : Key) :
    ∃ found walked, arena.findNode (hashName key.1) key.1 key.2 = some (found, walked) ∧
      ∀ index, found = some index ↔ arena.Chained index ∧ (arena.nodes index).key = key := by
  obtain ⟨chains, free, hlayout⟩ := hwell
  obtain ⟨found, walked, hfind, hfound⟩ := hlayout.findNode key
  refine ⟨found, walked, hfind, fun index ↦ ?_⟩
  rw [hfound, hlayout.chained_iff]

theorem WellFormed.recordOf_eq_some {record : Node} : arena.recordOf key = some record ↔
      ∃ index, arena.Chained index ∧ (arena.nodes index).key = key ∧
        (arena.nodes index).record = record := by
  obtain ⟨found, walked, hfind, hfound⟩ := hwell.findNode key
  simp only [Arena.recordOf, hfind, bind_some, map_eq_some_iff, hfound, and_assoc]

theorem WellFormed.recordOf_eq_none :
    arena.recordOf key = none ↔ ∀ index, arena.Chained index → (arena.nodes index).key ≠ key := by
  obtain ⟨found, walked, hfind, hfound⟩ := hwell.findNode key
  simp only [Arena.recordOf, hfind, bind_some, map_eq_none_iff]
  simp only [eq_none_iff_forall_ne_some, ne_eq, hfound, not_and]

theorem WellFormed.recordOf_chained (hchained : arena.Chained index) :
    arena.recordOf (arena.nodes index).key = some (arena.nodes index).record :=
  hwell.recordOf_eq_some.mpr ⟨index, hchained, rfl, rfl⟩

theorem WellFormed.chained_inj {other : Nat}
    (hindex : arena.Chained index) (hother : arena.Chained other)
    (hkey : (arena.nodes index).key = (arena.nodes other).key) : index = other := by
  obtain ⟨chains, free, hlayout⟩ := hwell
  rw [hlayout.chained_iff] at hindex hother
  simp only [Node.key, Prod.mk.injEq] at hkey
  exact hlayout.distinct index hindex other hother hkey.1 hkey.2

theorem WellFormed.exists_members :
    ∃ members : List Nat, members.Nodup ∧ (∀ index, arena.Chained index ↔ index ∈ members) ∧
      arena.entries = members.length := by
  obtain ⟨chains, free, hlayout⟩ := hwell
  exact ⟨allMembers arena.numBuckets chains, hlayout.nodup_members, fun _ ↦ hlayout.chained_iff,
    hlayout.entries⟩

end

/-- The nodes of the records with the wanted keys, each once. -/
structure Lists (arena : Arena) (wanted : Key → Prop) (members : List Nat) : Prop where
  nodup : members.Nodup
  mem : ∀ index, index ∈ members ↔ arena.Chained index ∧ wanted (arena.nodes index).key

namespace Lists

variable {wanted : Key → Prop} {members : List Nat}

section

variable (hlists : Lists arena wanted members)
include hlists

theorem mem_keys (hwell : WellFormed arena) :
    key ∈ members.map (fun index ↦ (arena.nodes index).key) ↔
      (arena.recordOf key).isSome ∧ wanted key := by
  rw [List.mem_map]
  constructor
  · rintro ⟨index, hindex, rfl⟩
    obtain ⟨hchained, hwanted⟩ := (hlists.mem index).mp hindex
    refine ⟨?_, hwanted⟩
    rw [hwell.recordOf_chained hchained, isSome_some]
  · rintro ⟨hrecord, hwanted⟩
    obtain ⟨record, hfound⟩ := isSome_iff_exists.mp hrecord
    obtain ⟨index, hchained, rfl, -⟩ := hwell.recordOf_eq_some.mp hfound
    exact ⟨index, (hlists.mem index).mpr ⟨hchained, hwanted⟩, rfl⟩

theorem nodup_keys (hwell : WellFormed arena) :
    (members.map fun index ↦ (arena.nodes index).key).Nodup := by
  refine hlists.nodup.map_on ?_
  intro index hindex other hother hkey
  exact hwell.chained_inj ((hlists.mem index).mp hindex).1 ((hlists.mem other).mp hother).1 hkey

theorem ncard (hwell : WellFormed arena) :
    {key | (arena.recordOf key).isSome = true ∧ wanted key}.ncard = members.length := by
  have hset : {key | (arena.recordOf key).isSome = true ∧ wanted key} =
      ↑(members.map fun index ↦ (arena.nodes index).key).toFinset := by
    ext key
    rw [Finset.mem_coe, List.mem_toFinset, hlists.mem_keys hwell, Set.mem_ofPred_eq]
  rw [hset, Set.ncard_coe_finset, toFinset_card_of_nodup (hlists.nodup_keys hwell), length_map]

end

end Lists

theorem WellFormed.entries_eq_card (hwell : WellFormed arena) {keys : Finset Key}
    (hkeys : ∀ key, (arena.recordOf key).isSome ↔ key ∈ keys) : arena.entries = keys.card := by
  obtain ⟨members, hnodup, hmembers, hentries⟩ := hwell.exists_members
  have hlists : Lists arena (fun _ ↦ True) members := by
    constructor
    · exact hnodup
    · intro index
      rw [← hmembers, and_true]
  have hset : (members.map fun index ↦ (arena.nodes index).key).toFinset = keys := by
    ext key
    rw [List.mem_toFinset, hlists.mem_keys hwell, and_true, hkeys]
  rw [hentries, ← hset, toFinset_card_of_nodup (hlists.nodup_keys hwell), length_map]

theorem WellFormed.freeHead_isSome (hwell : WellFormed arena)
    (hroom : arena.entries < arena.nodeCount) : arena.freeHead.isSome := by
  obtain ⟨chains, free, hlayout⟩ := hwell
  have hpool := hlayout.pool.length_eq
  simp only [nil_append, length_append, length_range, ← hlayout.entries] at hpool
  cases free with
  | nil =>
    simp only [length_nil] at hpool
    omega
  | cons index free =>
    rw [hlayout.freeChain.head_eq]
    rfl

/-! ## What an operation changes -/

/-- From one arena to the next at most one record is thrown out and at most one is written; the
record written may take the node of the one thrown out. -/
structure Change (arena arena' : Arena) (gone written : Option Nat) : Prop where
  wellFormed : WellFormed arena'
  nodeCount : arena'.nodeCount = arena.nodeCount
  record : ∀ index, written ≠ some index → (arena'.nodes index).record = (arena.nodes index).record
  chained : ∀ index,
    arena'.Chained index ↔ written = some index ∨ (arena.Chained index ∧ gone ≠ some index)
  key : ∀ index, written = some index → arena.Chained index → gone ≠ some index →
    (arena'.nodes index).key = (arena.nodes index).key

def withoutKey (contents : Key → Option Node) (gone : Option Key) (key : Key) : Option Node :=
  if gone = some key then none else contents key

theorem Node.record_key (node : Node) : node.record.key = node.key := rfl

theorem Change.key_eq {gone written : Option Nat} (hchange : Change arena arena' gone written)
    (hchained : arena.Chained index) (hgone : gone ≠ some index) :
    (arena'.nodes index).key = (arena.nodes index).key := by
  by_cases hwritten : written = some index
  · exact hchange.key index hwritten hchained hgone
  · rw [← Node.record_key, hchange.record index hwritten, Node.record_key]

theorem Change.recordOf_written {gone : Option Nat} (hchange : Change arena arena' gone (some index)) :
    arena'.recordOf (arena'.nodes index).key = some (arena'.nodes index).record :=
  hchange.wellFormed.recordOf_chained ((hchange.chained index).mpr (.inl rfl))

section

variable (hwell : WellFormed arena)
include hwell

/-- Under every other key, a search finds what it found before, or nothing if that was thrown
out. -/
theorem Change.recordOf_other {gone written : Option Nat}
    (hchange : Change arena arena' gone written) (hgone : ∀ index ∈ gone, arena.Chained index)
    (hother : ∀ index ∈ written, (arena'.nodes index).key ≠ key) :
    arena'.recordOf key =
      withoutKey arena.recordOf (gone.map fun index ↦ (arena.nodes index).key) key := by
  cases hfound : arena'.recordOf key with
  | some record =>
    obtain ⟨index, hchained', hkey, hrecord⟩ := hchange.wellFormed.recordOf_eq_some.mp hfound
    have hwritten : written ≠ some index := fun h ↦ hother index h hkey
    obtain ⟨hchained, hkept⟩ := ((hchange.chained index).mp hchained').resolve_left hwritten
    rw [hchange.key_eq hchained hkept] at hkey
    rw [withoutKey, if_neg, ← hkey, hwell.recordOf_chained hchained,
      ← hchange.record index hwritten, hrecord]
    -- a record thrown out under this key would be this very node
    intro hsame
    obtain ⟨victim, hvictim, hvictimKey⟩ := map_eq_some_iff.mp hsame
    rw [hwell.chained_inj (hgone victim hvictim) hchained (hvictimKey.trans hkey.symm)] at hvictim
    exact hkept hvictim
  | none =>
    rw [withoutKey]
    split
    case isTrue => rfl
    case isFalse hkept =>
      symm
      apply hwell.recordOf_eq_none.mpr
      intro index hchained hkey
      have hstays : gone ≠ some index := by
        rintro rfl
        simp [hkey] at hkept
      have hchained' : arena'.Chained index := (hchange.chained index).mpr (.inr ⟨hchained, hstays⟩)
      exact hchange.wellFormed.recordOf_eq_none.mp hfound index hchained'
        ((hchange.key_eq hchained hstays).trans hkey)

theorem Change.recordOf_unchanged
    (hchange : Change arena arena' none none) (key : Key) :
    arena'.recordOf key = arena.recordOf key := by
  rw [hchange.recordOf_other hwell (by simp) (by simp)]
  simp [withoutKey]

theorem Change.recordOf_dropped (hchained : arena.Chained index)
    (hchange : Change arena arena' (some index) none) (key : Key) :
    arena'.recordOf key = if (arena.nodes index).key = key then none else arena.recordOf key := by
  rw [hchange.recordOf_other hwell (by simpa using hchained) (by simp)]
  simp [withoutKey]

theorem Change.recordOf_rewritten
    (hchange : Change arena arena' none (some index)) (hkey : (arena'.nodes index).key ≠ key) :
    arena'.recordOf key = arena.recordOf key := by
  rw [hchange.recordOf_other hwell (by simp) (by simpa using hkey)]
  simp [withoutKey]

end

theorem Layout.unlinkNode_change (hlayout : Layout arena chains free [])
    (hbucket : bucket < arena.numBuckets) (hmem : index ∈ chains bucket) :
    ∃ arena' chains', arena.unlinkNode bucket index = some arena' ∧
      Layout arena' chains' (index :: free) [] ∧ SameRecords arena arena' ∧
      ∀ other, arena'.Chained other ↔ arena.Chained other ∧ other ≠ index := by
  obtain ⟨before, after, hchain⟩ := append_of_mem hmem
  obtain ⟨arena', hunlink, hlayout', hsame⟩ := hlayout.unlinkNode hbucket hchain
  refine ⟨arena', _, hunlink, hlayout', hsame, fun other ↦ ?_⟩
  have hperm : (chains bucket).Perm (index :: (before ++ after)) := by
    rw [hchain]
    exact perm_middle
  have hmembers := allMembers_update_perm hbucket hperm
  have hfresh : index ∉ allMembers arena.numBuckets
      (update chains bucket (before ++ after)) := by
    have htop : index ∈ [] ++ index :: free := by simp
    exact hsame.numBuckets ▸ hlayout'.not_mem_chain htop
  rw [hlayout'.chained_iff, hlayout.chained_iff, hsame.numBuckets, hmembers.mem_iff, mem_cons]
  constructor
  · intro hother
    refine ⟨.inr hother, ?_⟩
    rintro rfl
    exact hfresh hother
  · rintro ⟨hother, hne⟩
    exact hother.resolve_left hne

theorem WellFormed.unlinkNode (hwell : WellFormed arena) (hchained : arena.Chained index) :
    ∃ arena', arena.unlinkNode (arena.bucketOf (hashName (arena.nodes index).name)) index =
        some arena' ∧ Change arena arena' (some index) none := by
  obtain ⟨chains, free, hlayout⟩ := hwell
  obtain ⟨bucket, hbucket, hmem⟩ := mem_allMembers.mp (hlayout.chained_iff.mp hchained)
  obtain ⟨hplace, hhash⟩ := hlayout.placed bucket hbucket index hmem
  obtain ⟨arena', chains', hunlink, hlayout', hsame, hmembers⟩ := hlayout.unlinkNode_change hbucket hmem
  refine ⟨arena', ?_, ⟨chains', _, hlayout'⟩, hsame.nodeCount, ?_, ?_, ?_⟩
  · rw [← hhash, hplace, hunlink]
  · exact fun other _ ↦ hsame.record other
  · intro other
    simp [hmembers, eq_comm]
  · simp

theorem WellFormed.rewrite (hwell : WellFormed arena) (hchained : arena.Chained index)
    (hshape : SameShape arena arena')
    (hothers : ∀ other ≠ index, arena'.nodes other = arena.nodes other) :
    Change arena arena' none (some index) := by
  obtain ⟨chains, free, hlayout⟩ := hwell
  have hlayout' := hlayout.of_sameShape hshape
  constructor
  · exact ⟨chains, free, hlayout'⟩
  · exact hshape.nodeCount
  · intro other hother
    rw [hothers other (by rintro rfl; simp at hother)]
  · intro other
    rw [hlayout'.chained_iff, hlayout.chained_iff, hshape.numBuckets]
    constructor
    · exact fun hmem ↦ .inr ⟨hmem, by simp⟩
    · rintro (hsame | ⟨hmem, -⟩)
      · cases hsame
        exact hlayout.chained_iff.mp hchained
      · exact hmem
  · intro other _ _ _
    rw [Node.key, Node.key, hshape.name, hshape.qtype]

theorem WellFormed.unchanged (hwell : WellFormed arena) (hshape : SameShape arena arena')
    (hnodes : arena'.nodes = arena.nodes) : Change arena arena' none none := by
  obtain ⟨chains, free, hlayout⟩ := hwell
  have hlayout' := hlayout.of_sameShape hshape
  constructor
  · exact ⟨chains, free, hlayout'⟩
  · exact hshape.nodeCount
  · intro other _
    rw [hnodes]
  · intro other
    rw [hlayout'.chained_iff, hlayout.chained_iff, hshape.numBuckets]
    simp
  · simp

theorem considerVictim_cases (arena : Arena) (now : UInt32) (bucket : Nat)
    (scan : Option Arena.Victim × Nat) (index : Nat) :
    ∃ victim, (arena.considerVictim now bucket scan index).1 = some victim ∧
      (scan.1 = some victim ∨ (victim.bucket = bucket ∧ victim.idx = index)) := by
  obtain ⟨best, seen⟩ := scan
  cases best with
  | none => exact ⟨_, rfl, .inr ⟨rfl, rfl⟩⟩
  | some best =>
    simp only [Arena.considerVictim]
    split_ifs
    · exact ⟨best, rfl, .inl rfl⟩
    · exact ⟨best, rfl, .inl rfl⟩
    · exact ⟨_, rfl, .inr ⟨rfl, rfl⟩⟩

theorem Layout.findEvictVictim (hlayout : Layout arena chains free hand) (now : UInt32) :
    ∃ victim seen, arena.findEvictVictim now = some (victim, seen) ∧
      (∀ best ∈ victim, best.bucket < arena.numBuckets ∧ best.idx ∈ chains best.bucket) ∧
      (victim = none → allMembers arena.numBuckets chains = []) := by
  have hscan := foldAll_eq hlayout.chain (fun _ ↦ hlayout.length_le) (arena.considerVictim now)
    (none, 0)
  refine ⟨_, _, hscan, ?_, ?_⟩
  · -- every candidate comes from the visit it was taken at
    simp only [← mem_visits]
    refine foldlRecOn (motive := fun scan : Option Arena.Victim × Nat ↦
      ∀ best ∈ scan.1, (best.bucket, best.idx) ∈ visits arena.numBuckets chains) _ _ ?_ ?_
    · intro best hbest
      cases hbest
    · intro scan hvalid visit hvisit best hbest
      obtain ⟨victim, hvictim, hfrom⟩ := considerVictim_cases arena now visit.1 scan visit.2
      obtain rfl : victim = best := mem_unique hvictim hbest
      rcases hfrom with hold | ⟨hbucket, hidx⟩
      · exact hvalid victim hold
      · rw [hbucket, hidx]
        exact hvisit
  · rw [← map_snd_visits]
    rcases eq_nil_or_concat (visits arena.numBuckets chains) with hnil | ⟨front, last, hlast⟩
    · simp [hnil]
    · rw [hlast, concat_eq_append, foldl_concat]
      intro hnone
      obtain ⟨victim, hvictim, -⟩ := considerVictim_cases arena now last.1 _ last.2
      rw [hnone] at hvictim
      cases hvictim

/-- The node whose record makes room for a new one, if there is no free node. -/
def Arena.evicted (arena : Arena) (now : UInt32) : Option Nat :=
  if arena.freeHead.isSome then none
  else (arena.findEvictVictim now).bind fun scan ↦ scan.1.map Arena.Victim.idx

theorem SameShape.chained (hshape : SameShape arena arena') :
    arena'.Chained index ↔ arena.Chained index := by
  have hlink : arena'.link = arena.link := funext hshape.next
  rw [Arena.Chained, Arena.Chained, hlink, hshape.numBuckets, hshape.buckets]

theorem Layout.takeNode (hlayout : Layout arena chains free []) (now : UInt32) (scanUs : Nat) :
    ∃ arena' index chains' free', arena.takeNode now scanUs = some (arena', some index) ∧
      Layout arena' chains' free' [index] ∧ SameRecords arena arena' ∧
      (∀ gone ∈ arena.evicted now, arena.Chained gone ∧ gone = index) ∧
      ∀ other, arena'.Chained other ↔ arena.Chained other ∧ arena.evicted now ≠ some other := by
  cases free with
  | cons index free =>
    obtain ⟨arena', halloc, hlayout', hsame⟩ := hlayout.allocNode
    have hevicted : arena.evicted now = none := by
      rw [Arena.evicted, hlayout.freeChain.head_eq]
      rfl
    refine ⟨arena', index, chains, free, ?_, hlayout', hsame, ?_, ?_⟩
    · rw [Arena.takeNode, halloc]
    · simp [hevicted]
    · intro other
      rw [hlayout'.chained_iff, hlayout.chained_iff, hsame.numBuckets, hevicted]
      simp
  | nil =>
    have hfreeHead : arena.freeHead = none := hlayout.freeChain.head_eq
    obtain ⟨victim, seen, hscan, hvalid, hempty⟩ := hlayout.findEvictVictim now
    cases victim with
    | none =>
      -- every node would be in hand or free, and there is none
      have hlength := hlayout.pool.length_eq
      simp only [hempty rfl, append_nil, length_nil, length_range] at hlength
      exact absurd hlength hlayout.nodeCount_pos.ne
    | some victim =>
      obtain ⟨hbucket, hmem⟩ := hvalid victim rfl
      have hevicted : arena.evicted now = some victim.idx := by
        simp [Arena.evicted, hfreeHead, hscan]
      let scanned : Arena :=
        { arena with
          counters :=
            { arena.counters with
              evictScanUs := arena.counters.evictScanUs + scanUs
              evictScans := arena.counters.evictScans + 1
              evictScanNodes := arena.counters.evictScanNodes + seen } }
      have hshape : SameShape arena scanned := sameShape_counters arena _
      obtain ⟨unlinked, chains', hunlink, hunlinked, hsame, hmembers⟩ :=
        (hlayout.of_sameShape hshape).unlinkNode_change hbucket hmem
      let counted : Arena :=
        { unlinked with
          counters := { unlinked.counters with evicted := unlinked.counters.evicted + 1 } }
      have hcounted : SameShape unlinked counted := sameShape_counters unlinked _
      obtain ⟨arena', halloc, hlayout', htaken⟩ := (hunlinked.of_sameShape hcounted).allocNode
      refine ⟨arena', victim.idx, chains', [], ?_, hlayout', ?_, ?_, ?_⟩
      · have hnoFree : arena.allocNode = (arena, none) := by rw [Arena.allocNode, hfreeHead]
        rw [Arena.takeNode, hnoFree]
        simp only [hscan, bind_eq_bind, bind_some]
        rw [hunlink, bind_some]
        exact congrArg some halloc
      · exact ⟨fun other ↦ (htaken.record other).trans (hsame.record other),
          htaken.nodeCount.trans hsame.nodeCount, htaken.numBuckets.trans hsame.numBuckets⟩
      · rw [hevicted]
        rintro gone ⟨rfl⟩
        exact ⟨hlayout.chained_iff.mpr (mem_allMembers.mpr ⟨_, hbucket, hmem⟩), rfl⟩
      · intro other
        rw [hlayout'.chained_iff, htaken.numBuckets, ← (hunlinked.of_sameShape hcounted).chained_iff,
          hcounted.chained, hmembers, hshape.chained, hevicted]
        simp [eq_comm]

theorem Layout.linkNode_chained {name : Bytes} {qtype : UInt16} (now : UInt32)
    (hlayout : Layout arena chains free (index :: hand))
    (hnew : ∀ other ∈ allMembers arena.numBuckets chains,
      ¬ ((arena.nodes other).name = name ∧ (arena.nodes other).qtype = qtype)) (other : Nat) :
    (arena.linkNode index (hashName name) name qtype now).Chained other ↔
      other = index ∨ arena.Chained other := by
  have hbucket : arena.bucketOf (hashName name) < arena.numBuckets := Nat.mod_lt _ hlayout.numBuckets_pos
  rw [(hlayout.linkNode now hnew).chained_iff, hlayout.chained_iff]
  exact (allMembers_push_perm hbucket chains index).mem_iff.trans mem_cons

theorem noteMark_nodes (arena : Arena) (index : Nat) : (arena.noteMark index).nodes = arena.nodes := by
  unfold Arena.noteMark
  dsimp only
  repeat' split
  all_goals rfl

theorem bumpUse_nodes (arena : Arena) (index : Nat) : (arena.bumpUse index).nodes =
      update arena.nodes index
        { arena.nodes index with uses := Arena.saturatingSucc (arena.nodes index).uses } := by
  rw [Arena.bumpUse, noteMark_nodes]
  rfl

/-- What `writeRecord` makes of a node. -/
def Node.written (node : Node) (inet : Inet) (payload : Payload) (now : UInt32) : Node :=
  { { node with storedMs := now, ttl := payload.ttl }.withAddresses inet payload.ips with
    uses :=
      match payload.usesExact with
      | none => Arena.saturatingSucc node.uses
      | some uses => clampUses uses }

structure SameButAddresses (node node' : Node) : Prop where
  next : node'.next = node.next
  hash : node'.hash = node.hash
  qtype : node'.qtype = node.qtype
  name : node'.name = node.name
  uses : node'.uses = node.uses
  storedMs : node'.storedMs = node.storedMs
  ttl : node'.ttl = node.ttl

theorem sameButAddresses_withAddresses (node : Node) (inet : Inet) (ips : List Bytes) :
    SameButAddresses node (node.withAddresses inet ips) := by
  unfold Node.withAddresses
  split <;> constructor <;> rfl

theorem writeRecord_nodes (arena : Arena) (inet : Inet) (index : Nat) (payload : Payload)
    (now : UInt32) :
    (arena.writeRecord inet index payload now).nodes =
      update arena.nodes index ((arena.nodes index).written inet payload now) := by
  unfold Arena.writeRecord
  cases huses : payload.usesExact with
  | none =>
    simp only [bumpUse_nodes, Arena.setNode, update_self, update_idem]
    simp only [Node.written, huses, (sameButAddresses_withAddresses _ _ _).uses]
  | some uses =>
    simp only [noteMark_nodes, Arena.setNode]
    simp only [Node.written, huses]

theorem sameShape_writeRecord (arena : Arena) (inet : Inet) (index : Nat) (payload : Payload)
    (now : UInt32) : SameShape arena (arena.writeRecord inet index payload now) := by
  have hfields := sameButAddresses_withAddresses
    { arena.nodes index with storedMs := now, ttl := payload.ttl } inet payload.ips
  have hset (uses : UInt32) := sameShape_setNode arena index
    { { arena.nodes index with storedMs := now, ttl := payload.ttl }.withAddresses inet
      payload.ips with uses } hfields.next hfields.hash hfields.qtype hfields.name
  have hfresh := sameShape_setNode arena index
    ({ arena.nodes index with storedMs := now, ttl := payload.ttl }.withAddresses inet
      payload.ips) hfields.next hfields.hash hfields.qtype hfields.name
  unfold Arena.writeRecord
  cases payload.usesExact with
  | none => exact (hfresh.trans (sameShape_counters _ _)).trans (sameShape_bumpUse _ _)
  | some uses => exact ((hset _).trans (sameShape_counters _ _)).trans (sameShape_noteMark _ _)

end DhcpServer.Dns.InternalCache
