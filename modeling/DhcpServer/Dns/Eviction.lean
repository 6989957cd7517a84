import DhcpServer.Dns.CacheRoundTrip

/-!
# Eviction

A store of a new key into a full pool throws out one record, the one with the fewest uses and, among
those, the greatest age. The scan keeps the first least node it comes to, which is `List.argmin` over
the nodes in the order of the walk.
-/

namespace DhcpServer.Dns.InternalCache

open Library List Option

open CacheFile (unletters_flatMap zero_not_mem_letters)

variable {arena arena' : Arena} {inet : Inet} {now : UInt32} {index : Nat} {domain : Bytes}
  {qtype : UInt16} {key : Key}

/-- Who goes first: the record with fewer uses, then the older one. -/
def rankOf (uses age : UInt32) : Nat ×ₗ Natᵒᵈ := toLex (uses.toNat, OrderDual.toDual age.toNat)

def rank (now : UInt32) (node : Node) : Nat ×ₗ Natᵒᵈ := rankOf node.uses (elapsedMs now node.storedMs)

theorem rankOf_lt_iff {uses age uses' age' : UInt32} : rankOf uses age < rankOf uses' age' ↔
      uses.toNat < uses'.toNat ∨ uses.toNat = uses'.toNat ∧ age'.toNat < age.toNat := by
  rw [rankOf, rankOf, Prod.Lex.toLex_lt_toLex, OrderDual.toDual_lt_toDual]

theorem rankOf_le_iff {uses age uses' age' : UInt32} : rankOf uses age ≤ rankOf uses' age' ↔
      uses.toNat < uses'.toNat ∨ uses.toNat = uses'.toNat ∧ age'.toNat ≤ age.toNat := by
  rw [rankOf, rankOf, Prod.Lex.toLex_le_toLex, OrderDual.toDual_le_toDual]

def victimOf (arena : Arena) (now : UInt32) (visit : Nat × Nat) : Arena.Victim :=
  let node := arena.nodes visit.2
  ⟨visit.2, visit.1, node.uses, elapsedMs now node.storedMs⟩

theorem considerVictim_some (arena : Arena) (now : UInt32) (best : Arena.Victim) (visit : Nat × Nat)
    (seen : Nat) :
    arena.considerVictim now visit.1 (some best, seen) visit.2 =
      (some (if rank now (arena.nodes visit.2) < rankOf best.uses best.age then victimOf arena now visit
        else best), seen + 1) := by
  have hrank : rank now (arena.nodes visit.2) < rankOf best.uses best.age ↔
      ¬best.uses < (arena.nodes visit.2).uses ∧ ¬((arena.nodes visit.2).uses = best.uses ∧
        elapsedMs now (arena.nodes visit.2).storedMs ≤ best.age) := by
    rw [rank, rankOf_lt_iff, UInt32.lt_iff_toNat_lt, ← UInt32.toNat_inj, UInt32.le_iff_toNat_le]
    omega
  by_cases hbeats : rank now (arena.nodes visit.2) < rankOf best.uses best.age
  · obtain ⟨hmore, hequal⟩ := hrank.mp hbeats
    rw [if_pos hbeats]
    simp only [Arena.considerVictim, if_neg hmore, if_neg hequal]
    rfl
  · rw [if_neg hbeats]
    simp only [Arena.considerVictim]
    split_ifs with hmore hequal
    · rfl
    · rfl
    · exact absurd (hrank.mpr ⟨hmore, hequal⟩) hbeats

theorem scan_eq_argmin (arena : Arena) (now : UInt32) (visits : List (Nat × Nat)) :
    (visits.foldl (fun scan visit ↦ arena.considerVictim now visit.1 scan visit.2) (none, 0)).1 =
      (visits.argmin fun visit ↦ rank now (arena.nodes visit.2)).map (victimOf arena now) := by
  induction visits using reverseRecOn with
  | nil => rfl
  | append_singleton visits visit ih =>
    rw [foldl_concat, argmin_concat]
    generalize visits.foldl (fun scan visit ↦ arena.considerVictim now visit.1 scan visit.2) (none, 0) =
      scan at ih ⊢
    obtain ⟨best, seen⟩ := scan
    obtain rfl : best = _ := ih
    cases visits.argmin fun visit ↦ rank now (arena.nodes visit.2) with
    | none => rfl
    | some best =>
      have hsame : rankOf (victimOf arena now best).uses (victimOf arena now best).age =
          rank now (arena.nodes best.2) := rfl
      rw [map_some, considerVictim_some, hsame]
      dsimp only
      split_ifs <;> rfl

theorem WellFormed.evicted_least (hwell : WellFormed arena) (hfull : arena.freeHead = none) (now : UInt32) :
    ∃ index, arena.evicted now = some index ∧ arena.Chained index ∧
      ∀ other, arena.Chained other → rank now (arena.nodes index) ≤ rank now (arena.nodes other) := by
  obtain ⟨chains, free, hlayout⟩ := hwell
  have hvisited (other : Nat) (hother : arena.Chained other) :
      ∃ bucket, (bucket, other) ∈ visits arena.numBuckets chains := by
    obtain ⟨bucket, hbucket, hmem⟩ := mem_allMembers.mp (hlayout.chained_iff.mp hother)
    exact ⟨bucket, mem_visits.mpr ⟨hbucket, hmem⟩⟩
  have hscan := foldAll_eq hlayout.chain (fun _ ↦ hlayout.length_le) (arena.considerVictim now) (none, 0)
  have hleast := scan_eq_argmin arena now (visits arena.numBuckets chains)
  cases hbest : (visits arena.numBuckets chains).argmin fun visit ↦ rank now (arena.nodes visit.2) with
  | none =>
    -- nothing is chained and nothing is free, but there is a node
    have hnone : visits arena.numBuckets chains = [] := argmin_eq_none.mp hbest
    have hmembers : allMembers arena.numBuckets chains = [] := by
      rw [← map_snd_visits, hnone, map_nil]
    have hfree : free = [] := by
      have hchain := hlayout.freeChain
      rw [hfull] at hchain
      exact hchain.unique .nil
    have hlength := hlayout.pool.length_eq
    rw [hmembers, hfree, length_range] at hlength
    exact absurd hlength hlayout.nodeCount_pos.ne
  | some best =>
    rw [hbest, map_some] at hleast
    obtain ⟨bucket, index⟩ := best
    have hmem : (bucket, index) ∈ visits arena.numBuckets chains := argmin_mem hbest
    refine ⟨index, ?_, ?_, ?_⟩
    · rw [Arena.evicted, hfull, Arena.findEvictVictim, hscan]
      simp [hleast, victimOf]
    · obtain ⟨hbucket, hindex⟩ := mem_visits.mp hmem
      exact hlayout.chained_iff.mpr (mem_allMembers.mpr ⟨bucket, hbucket, hindex⟩)
    · intro other hother
      obtain ⟨place, hplace⟩ := hvisited other hother
      exact le_of_mem_argmin (f := fun visit : Nat × Nat ↦ rank now (arena.nodes visit.2)) hplace hbest

/-- One record makes room for a new one: it is the least used and among those the oldest. -/
structure Evicts (arena arena' : Arena) (key : Key) (now : UInt32) (gone : Key) (victim : Node) : Prop where
  found : arena.recordOf gone = some victim
  fewest : ∀ other record, arena.recordOf other = some record → victim.uses ≤ record.uses
  oldest : ∀ other record, arena.recordOf other = some record → record.uses = victim.uses →
    elapsedMs now record.storedMs ≤ elapsedMs now victim.storedMs
  left : arena'.recordOf gone = none
  present : ∃ record, arena'.recordOf key = some record ∧ record.uses = 1
  others : ∀ other, other ≠ gone → other ≠ key → arena'.recordOf other = arena.recordOf other

theorem WellFormed.evicts (hwell : WellFormed arena) (hfull : arena.freeHead = none) {ips : List Bytes}
    (hstorable : Storable domain qtype ips) (hnew : arena.recordOf (keyName domain, qtype) = none)
    (inet : Inet) (ttl now : UInt32) (scanUs : Nat) :
    ∃ arena', arena.storeInternal inet domain qtype ⟨ips, ttl, none⟩ now scanUs = some arena' ∧
      ∃ gone victim, Evicts arena arena' (keyName domain, qtype) now gone victim := by
  have htaken : Storable domain qtype (⟨ips, ttl, none⟩ : Payload).ips := hstorable
  obtain ⟨arena', index, old, hstore, hstored⟩ := hwell.storeInternal htaken inet now scanUs
  obtain ⟨victim, hevicted, hchained, hleast⟩ := hwell.evicted_least hfull now
  have hgone : arena.evictedFor (keyName domain, qtype) now = some victim := by
    rw [Arena.evictedFor, hnew, hevicted]
    rfl
  have hfound := hwell.recordOf_chained hchained
  have hother : (arena.nodes victim).key ≠ (keyName domain, qtype) := by
    intro hsame
    rw [hsame, hnew] at hfound
    cases hfound
  have hrank (other : Key) (record : Node) (hrecord : arena.recordOf other = some record) :
      rank now (arena.nodes victim) ≤ rank now record := by
    obtain ⟨node, hnode, -, rfl⟩ := hwell.recordOf_eq_some.mp hrecord
    exact hleast node hnode
  refine ⟨arena', hstore, (arena.nodes victim).key, (arena.nodes victim).record, hfound, ?_, ?_, ?_, ?_, ?_⟩
  · intro other record hrecord
    have hle := rankOf_le_iff.mp (hrank other record hrecord)
    have huses : (arena.nodes victim).record.uses = (arena.nodes victim).uses := rfl
    rw [huses, UInt32.le_iff_toNat_le]
    omega
  · intro other record hrecord hequal
    have hle := rankOf_le_iff.mp (hrank other record hrecord)
    have huses : record.uses.toNat = (arena.nodes victim).uses.toNat := UInt32.toNat_inj.mpr hequal
    have hstamp : (arena.nodes victim).record.storedMs = (arena.nodes victim).storedMs := rfl
    rw [hstamp, UInt32.le_iff_toNat_le]
    omega
  · rw [hstored.recordOf_other hwell hother, hgone]
    simp [withoutKey]
  · have hfresh : old.uses = 0 := by
      rcases hstored.old_eq with hsome | ⟨-, huses⟩
      · rw [hnew] at hsome
        cases hsome
      · exact huses
    refine ⟨_, hstored.recordOf_self, ?_⟩
    calc (old.written inet ⟨ips, ttl, none⟩ now).record.uses
        = Arena.saturatingSucc old.uses := rfl
      _ = 1 := by rw [hfresh]; decide
  · intro other hne hkey
    rw [hstored.recordOf_other hwell hkey, hgone]
    simp [withoutKey, hne.symm]

/-- A store of a new key into a full pool evicts the record that is least used, and among those the oldest;
a store that is not accepted changes nothing. -/
theorem store_evicts (arena : Arena) (hwell : WellFormed arena) (hfull : arena.freeHead = none)
    (domain : Bytes) (qtype : UInt16) (hnew : arena.recordOf (keyName domain, qtype) = none)
    (inet : Inet) (ips : List Bytes) (ttl now : UInt32) (scanUs : Nat) :
    ∃ arena', arena.storeInternal inet domain qtype ⟨ips, ttl, none⟩ now scanUs = some arena' ∧
      (Storable domain qtype ips →
        ∃ gone victim, Evicts arena arena' (keyName domain, qtype) now gone victim) ∧
      (¬Storable domain qtype ips → arena' = arena) := by
  by_cases hstorable : Storable domain qtype ips
  · obtain ⟨arena', hstore, hevicts⟩ := hwell.evicts hfull hstorable hnew inet ttl now scanUs
    exact ⟨arena', hstore, fun _ ↦ hevicts, fun hnot ↦ absurd hstorable hnot⟩
  · have hrefused : ¬Storable domain qtype (⟨ips, ttl, none⟩ : Payload).ips := hstorable
    exact ⟨arena, storeInternal_not_storable hrefused now scanUs, fun hyes ↦ absurd hyes hstorable,
      fun _ ↦ rfl⟩

def fillName (index : Nat) : Bytes := [UInt8.ofNat (index / 256), UInt8.ofNat index].flatMap letters

def fillStore (index : Nat) : Operation := .store (fillName index) kTypeA ⟨[sampleText], 60, none⟩ 0 0

/-- The cache is switched on and gets one record after the other. -/
def fillCalls (count : Nat) : List Call :=
  .enable 1 true :: (List.range count).map fun index ↦ .operate (fillStore index)

theorem fillName_inj {index other : Nat} (hindex : index < 65536) (hother : other < 65536)
    (hsame : fillName index = fillName other) : index = other := by
  have hbytes := congrArg unletters hsame
  rw [fillName, fillName, unletters_flatMap, unletters_flatMap] at hbytes
  obtain ⟨hhigh, hrest⟩ := cons.inj hbytes
  have hlow := (cons.inj hrest).1
  have hhigh' := congrArg UInt8.toNat hhigh
  have hlow' := congrArg UInt8.toNat hlow
  rw [UInt8.toNat_ofNat', UInt8.toNat_ofNat'] at hhigh' hlow'
  omega

theorem lower_letters (byte : UInt8) : (letters byte).map toLower = letters byte := by
  have hbyte := byte.toNat_lt
  have hsmall (number : Nat) (hnumber : number < 16) :
      toLower (UInt8.ofNat (number + 97)) = UInt8.ofNat (number + 97) := by
    revert number
    decide
  rw [letters, map_cons, map_singleton, hsmall _ (by omega), hsmall _ (by omega)]

theorem keyName_fillName (index : Nat) : keyName (fillName index) = fillName index := by
  have hlower : lower (fillName index) = fillName index := by
    rw [lower, fillName, map_flatMap]
    simp only [lower_letters]
  rw [keyName, hlower, fillName, cString_eq_self (zero_not_mem_letters _)]

theorem storable_fillName (index : Nat) : Storable (fillName index) kTypeA [sampleText] := by
  constructor
  · simp [fillName, letters]
  · simp
  · exact .inl rfl
  · rw [lower, length_map]
    simp [fillName, letters, kMaxNameLen]

structure Filled (arena : Arena) (count : Nat) : Prop where
  wellFormed : WellFormed arena
  nodeCount : arena.nodeCount = 2967
  entries : arena.entries = count
  keys : ∀ key, (arena.recordOf key).isSome → ∃ index < count, key = (fillName index, kTypeA)

theorem Filled.store {count : Nat} (hfilled : Filled arena count) (hroom : count < 2967) :
    ∃ arena', arena.step sampleInet false (fillStore count) = some arena' ∧ Filled arena' (count + 1) := by
  have htaken : Storable (fillName count) kTypeA (⟨[sampleText], 60, none⟩ : Payload).ips :=
    storable_fillName count
  obtain ⟨arena', index, old, hstore, hstored⟩ :=
    hfilled.wellFormed.storeInternal htaken sampleInet (nowMs 0) 0
  rw [keyName_fillName] at hstored
  have hnew : arena.recordOf (fillName count, kTypeA) = none := by
    by_contra hsome
    obtain ⟨other, hother, hkey⟩ := hfilled.keys _ (isSome_iff_ne_none.mpr hsome)
    have hindex := fillName_inj (by omega) (by omega) (congrArg Prod.fst hkey)
    omega
  have hfree : arena.freeHead.isSome := by
    apply hfilled.wellFormed.freeHead_isSome
    rw [hfilled.entries, hfilled.nodeCount]
    exact hroom
  have hevicted : arena.evictedFor (fillName count, kTypeA) (nowMs 0) = none := by
    rw [Arena.evictedFor, hnew, Arena.evicted, hfree]
    rfl
  refine ⟨arena', ?_, ?_, ?_, ?_, ?_⟩
  · rw [Arena.step, fillStore, Arena.perform, hstore]
    rfl
  · exact hstored.change.wellFormed
  · rw [hstored.change.nodeCount, hfilled.nodeCount]
  · rw [hstored.entries hfilled.wellFormed hnew hevicted, hfilled.entries]
  · intro key hkey
    by_cases hsame : key = (fillName count, kTypeA)
    · exact ⟨count, count.lt_succ_self, hsame⟩
    · rw [hstored.recordOf_other hfilled.wellFormed hsame, hevicted] at hkey
      obtain ⟨other, hother, hfound⟩ := hfilled.keys key (by simpa [withoutKey] using hkey)
      exact ⟨other, hother.trans count.lt_succ_self, hfound⟩

theorem exists_filledArena (count : Nat) (hcount : count ≤ 2967) :
    ∃ arena, steps (Cache.step sampleInet) (Cache.initial false) (fillCalls count) =
      some ⟨some arena, 1, false⟩ ∧ Filled arena count := by
  induction count with
  | zero =>
    obtain ⟨fresh, henable, hvacant, hcount⟩ := exists_enabled
    refine ⟨fresh, ?_, hvacant.wellFormed, hcount, hvacant.entries, ?_⟩
    · exact congrArg some henable
    · intro key hkey
      rw [hvacant.recordOf] at hkey
      cases hkey
  | succ count ih =>
    obtain ⟨arena, hsteps, hfilled⟩ := ih (by omega)
    obtain ⟨arena', hstep, hfilled'⟩ := hfilled.store (by omega)
    refine ⟨arena', ?_, hfilled'⟩
    have hcalls : fillCalls (count + 1) = fillCalls count ++ [.operate (fillStore count)] := by
      simp [fillCalls, range_succ]
    have hlast : Cache.step sampleInet ⟨some arena, 1, false⟩ (.operate (fillStore count)) =
        some ⟨some arena', 1, false⟩ := by
      obtain ⟨⟨same, answer⟩, hperform, rfl⟩ := map_eq_some_iff.mp hstep
      simp [Cache.step, Cache.perform, hperform]
    rw [hcalls, steps_append, hsteps, bind_some, steps_cons hlast]
    rfl

theorem WellFormed.freeHead_eq_none (hwell : WellFormed arena) (hfull : arena.entries = arena.nodeCount) :
    arena.freeHead = none := by
  obtain ⟨chains, free, hlayout⟩ := hwell
  have hlength := hlayout.pool.length_eq
  rw [nil_append, length_append, length_range, ← hlayout.entries, hfull] at hlength
  have hfree : free = [] := length_eq_zero_iff.mp (by omega)
  rw [hlayout.freeChain.head_eq, hfree]
  rfl

theorem exists_full :
    ∃ cache arena, steps (Cache.step sampleInet) (Cache.initial false) (fillCalls 2967) = some cache ∧
      cache.arena = some arena ∧ WellFormed arena ∧ arena.freeHead = none ∧
      ∀ qtype, arena.recordOf (keyName [0x61], qtype) = none := by
  obtain ⟨arena, hsteps, hfilled⟩ := exists_filledArena 2967 le_rfl
  refine ⟨_, arena, hsteps, rfl, hfilled.wellFormed, ?_, ?_⟩
  · apply hfilled.wellFormed.freeHead_eq_none
    rw [hfilled.entries, hfilled.nodeCount]
  · intro qtype
    by_contra hsome
    obtain ⟨index, -, hkey⟩ := hfilled.keys _ (isSome_iff_ne_none.mpr hsome)
    have hlength := congrArg List.length (congrArg Prod.fst hkey)
    rw [show keyName [0x61] = [0x61] from rfl] at hlength
    simp [fillName, letters] at hlength

/-- The first store after the pool is full. -/
theorem store_evicts_full :
    ∃ cache arena, steps (Cache.step sampleInet) (Cache.initial false) (fillCalls 2967) = some cache ∧
      cache.arena = some arena ∧
      ∃ arena', arena.storeInternal sampleInet [0x61] kTypeA ⟨[sampleText], 60, none⟩ 5 0 = some arena' ∧
        (Storable [0x61] kTypeA [sampleText] →
          ∃ gone victim, Evicts arena arena' (keyName [0x61], kTypeA) 5 gone victim) ∧
        (¬Storable [0x61] kTypeA [sampleText] → arena' = arena) := by
  obtain ⟨cache, arena, hsteps, harena, hwell, hfull, hnew⟩ := exists_full
  exact ⟨cache, arena, hsteps, harena,
    store_evicts arena hwell hfull [0x61] kTypeA (hnew kTypeA) sampleInet [sampleText] 60 5 0⟩

/-- A store of another type leaves the full pool as it is: no record goes, and none is present under the
key. -/
theorem text_evicts_nothing :
    ∃ cache arena, steps (Cache.step sampleInet) (Cache.initial false) (fillCalls 2967) = some cache ∧
      cache.arena = some arena ∧ arena.freeHead = none ∧ arena.recordOf (keyName [0x61], 16) = none ∧
      ∃ arena', arena.storeInternal sampleInet [0x61] 16 ⟨[sampleText], 60, none⟩ 5 0 = some arena' ∧
        ¬∃ gone victim, Evicts arena arena' (keyName [0x61], 16) 5 gone victim := by
  obtain ⟨cache, arena, hsteps, harena, hwell, hfull, hnew⟩ := exists_full
  have hother : ¬Storable [0x61] 16 (⟨[sampleText], 60, none⟩ : Payload).ips := by decide
  refine ⟨cache, arena, hsteps, harena, hfull, hnew 16, arena, storeInternal_not_storable hother 5 0, ?_⟩
  rintro ⟨gone, victim, hevicts⟩
  obtain ⟨record, hrecord, -⟩ := hevicts.present
  rw [hnew 16] at hrecord
  cases hrecord

end DhcpServer.Dns.InternalCache
