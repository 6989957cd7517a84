import DhcpServer.Dns.CacheOperations

/-!
# Sequences of calls of the built-in cache

The public functions of `InternalDnsCache` as steps of one cache object. Each takes the lock once;
`loadFromFile` takes it once for every record, and a single record of it is a `store` call with the
counter of the file. Times are milliseconds since boot, of which the source keeps the low 32 bits.
-/

namespace DhcpServer.Dns.InternalCache

open Library Option

def nowMs (time : Nat) : UInt32 := UInt32.ofNat time

inductive Operation
  | store (domain : Bytes) (qtype : UInt16) (payload : Payload) (time scanUs : Nat)
  | lookup (domain : Bytes) (qtype : UInt16) (time waitUs : Nat)
  | erase (domain : Bytes) (qtype : UInt16)
  | clear

inductive Call
  | enable (sizeMb : Nat) (allocated : Bool)
  | disable
  | operate (operation : Operation)
  | loadFromFile (file : Option Bytes) (clock : Nat → Nat)

inductive Answer
  | done
  | found (result : Option (List Bytes × UInt32))
  | erased (found : Bool)
  | loaded (count : Nat)

namespace Arena

def perform (arena : Arena) (inet : Inet) (ignoreTtl : Bool) : Operation → Option (Arena × Answer)
  | .store domain qtype payload time scanUs =>
    (arena.storeInternal inet domain qtype payload (nowMs time) scanUs).map (·, .done)
  | .lookup domain qtype time waitUs =>
    (arena.lookup inet ignoreTtl domain qtype (nowMs time) waitUs).map fun (arena, result) ↦
      (arena, .found result)
  | .erase domain qtype =>
    (arena.erase domain qtype).map fun (arena, found) ↦ (arena, .erased found)
  | .clear => some (arena.clear, .done)

def step (inet : Inet) (ignoreTtl : Bool) (arena : Arena) (operation : Operation) : Option Arena :=
  (arena.perform inet ignoreTtl operation).map Prod.fst

end Arena

namespace Cache

def disable (cache : Cache) : Cache := { cache with arena := none, sizeMb := 0 }

def refusal : Operation → Answer
  | .lookup _ _ _ _ => .found none
  | .erase _ _ => .erased false
  | _ => .done

def perform (inet : Inet) (cache : Cache) : Call → Option (Cache × Answer)
  | .enable sizeMb allocated => some (cache.enable sizeMb allocated, .done)
  | .disable => some (cache.disable, .done)
  | .operate operation =>
    match cache.arena with
    | none => some (cache, refusal operation)
    | some arena =>
      (arena.perform inet cache.ignoreTtl operation).map fun (arena, answer) ↦
        ({ cache with arena := some arena }, answer)
  | .loadFromFile file clock =>
    match cache.arena with
    | none => some (cache, .loaded 0)
    | some arena =>
      (CacheFile.loadFromFile inet (fun left ↦ nowMs (clock left)) file arena).map
        fun (arena, count) ↦ ({ cache with arena := some arena }, .loaded count)

def step (inet : Inet) (cache : Cache) (call : Call) : Option Cache :=
  (cache.perform inet call).map Prod.fst

end Cache

variable {arena : Arena}

/-- The operation is a store, and not one that does nothing. -/
def Operation.Accepted : Operation → Prop
  | .store domain qtype payload _ _ => Storable domain qtype payload.ips
  | _ => False

inductive Effect (inet : Inet) (arena : Arena) : Operation → Arena → Prop
  | kept {operation : Operation} {arena' : Arena} :
      ¬ operation.Accepted → Change arena arena' none none → Effect inet arena operation arena'
  | stored {domain : Bytes} {qtype : UInt16} {payload : Payload} {time scanUs index : Nat}
      {old : Node} {arena' : Arena} :
      Storable domain qtype payload.ips →
      Stored arena arena' inet (keyName domain, qtype) payload (nowMs time) index old →
      Effect inet arena (.store domain qtype payload time scanUs) arena'
  | used {operation : Operation} {index : Nat} {arena' : Arena} :
      ¬ operation.Accepted → arena.Chained index → Change arena arena' none (some index) →
      arena'.nodes index =
        { arena.nodes index with uses := Arena.saturatingSucc (arena.nodes index).uses } →
      Effect inet arena operation arena'
  | dropped {operation : Operation} {index : Nat} {arena' : Arena} :
      ¬ operation.Accepted → arena.Chained index → Change arena arena' (some index) none →
      Effect inet arena operation arena'
  | cleared : Effect inet arena .clear arena.clear

theorem WellFormed.perform (hwell : WellFormed arena) (inet : Inet) (ignoreTtl : Bool)
    (operation : Operation) :
    ∃ arena' answer, arena.perform inet ignoreTtl operation = some (arena', answer) ∧
      Effect inet arena operation arena' := by
  have hsame : Change arena arena none none := hwell.unchanged (SameShape.refl arena) rfl
  cases operation with
  | store domain qtype payload time scanUs =>
    by_cases hstorable : Storable domain qtype payload.ips
    · obtain ⟨arena', index, old, hstore, hstored⟩ :=
        hwell.storeInternal hstorable inet (nowMs time) scanUs
      exact ⟨arena', .done, by simp [Arena.perform, hstore], .stored hstorable hstored⟩
    · have hstore : arena.storeInternal inet domain qtype payload (nowMs time) scanUs = some arena :=
        storeInternal_not_storable hstorable (nowMs time) scanUs
      exact ⟨arena, .done, by simp [Arena.perform, hstore], .kept hstorable hsame⟩
  | lookup domain qtype time waitUs =>
    by_cases hdomain : Unsearched domain
    · refine ⟨arena, .found none, ?_, .kept not_false hsame⟩
      simp [Arena.perform, lookup_unsearched hdomain]
    · obtain ⟨arena', result, hlookup, hlooked⟩ :=
        hwell.lookup hdomain inet ignoreTtl qtype (nowMs time) waitUs
      refine ⟨arena', .found result, by simp [Arena.perform, hlookup], ?_⟩
      cases hlooked with
      | absent _ hchange => exact .kept not_false hchange
      | expired hchained _ _ _ hchange => exact .dropped not_false hchained hchange
      | blank _ _ _ hchange => exact .kept not_false hchange
      | hit hchained _ _ _ hchange hnode => exact .used not_false hchained hchange hnode
  | erase domain qtype =>
    obtain ⟨arena', found, herase, hcases⟩ := hwell.erase domain qtype
    refine ⟨arena', .erased found, by simp [Arena.perform, herase], ?_⟩
    rcases hcases with ⟨-, index, hchained, -, hchange⟩ | ⟨-, rfl, -⟩
    · exact .dropped not_false hchained hchange
    · exact .kept not_false hsame
  | clear => exact ⟨arena.clear, .done, rfl, .cleared⟩

theorem WellFormed.effect {arena' : Arena} {ignoreTtl : Bool} {operation : Operation}
    (hwell : WellFormed arena) {inet : Inet}
    (hstep : arena.step inet ignoreTtl operation = some arena') :
    Effect inet arena operation arena' := by
  obtain ⟨same, answer, hperform, heffect⟩ := hwell.perform inet ignoreTtl operation
  rw [Arena.step, hperform] at hstep
  cases hstep
  exact heffect

namespace Effect

variable {arena' : Arena} {inet : Inet} {operation : Operation}

theorem wellFormed (hwell : WellFormed arena) (heffect : Effect inet arena operation arena') :
    WellFormed arena' := by
  cases heffect with
  | kept _ hchange => exact hchange.wellFormed
  | stored _ hstored => exact hstored.change.wellFormed
  | used _ _ hchange _ => exact hchange.wellFormed
  | dropped _ _ hchange => exact hchange.wellFormed
  | cleared => exact hwell.clear.wellFormed

theorem nodeCount (heffect : Effect inet arena operation arena') : arena'.nodeCount = arena.nodeCount := by
  cases heffect with
  | kept _ hchange => exact hchange.nodeCount
  | stored _ hstored => exact hstored.change.nodeCount
  | used _ _ hchange _ => exact hchange.nodeCount
  | dropped _ _ hchange => exact hchange.nodeCount
  | cleared => rfl

end Effect

theorem WellFormed.step (hwell : WellFormed arena) (inet : Inet) (ignoreTtl : Bool)
    (operation : Operation) :
    ∃ arena', arena.step inet ignoreTtl operation = some arena' ∧ WellFormed arena' := by
  obtain ⟨arena', answer, hperform, heffect⟩ := hwell.perform inet ignoreTtl operation
  exact ⟨arena', by simp [Arena.step, hperform], heffect.wellFormed hwell⟩

def restores (inet : Inet) (clock : Nat → Nat) : List CacheFile.CacheFileRecord → List Operation
  | [] => []
  | record :: records =>
    .store record.name record.qtype ⟨record.texts inet, record.ttlRemaining, some record.uses⟩
      (clock records.length) 0 :: restores inet clock records

theorem restoreRecords_eq_steps (inet : Inet) (ignoreTtl : Bool) (clock : Nat → Nat)
    (records : List CacheFile.CacheFileRecord) (arena : Arena) :
    CacheFile.restoreRecords inet (fun left ↦ nowMs (clock left)) records arena =
      steps (Arena.step inet ignoreTtl) arena (restores inet clock records) := by
  induction records generalizing arena with
  | nil => rfl
  | cons record records ih =>
    rw [CacheFile.restoreRecords, restores, steps, List.foldlM_cons, Arena.step, Arena.perform,
      map_map, bind_eq_bind]
    cases arena.storeInternal inet record.name record.qtype
        ⟨record.texts inet, record.ttlRemaining, some record.uses⟩ (nowMs (clock records.length)) 0 with
    | none => rfl
    | some stored => exact ih stored

/-- The largest pool `enable` makes. -/
def kMaxNodes : Nat := kMaxCacheSizeMb * 1024 * 1024 / kNodeBytes

theorem Cache.enable_arena (cache : Cache) (sizeMb : Nat) (allocated : Bool) :
    (cache.enable sizeMb allocated).arena = cache.arena ∨
      ∃ fresh, (cache.enable sizeMb allocated).arena = some fresh ∧ Vacant fresh ∧
        fresh.nodeCount ≤ kMaxNodes ∧ ∀ index, (fresh.nodes index).name = [] := by
  unfold Cache.enable
  dsimp only
  split_ifs with harena hsmall
  · exact .inl rfl
  · exact .inl rfl
  · simp only [not_or, not_lt] at hsmall
    refine .inr ⟨_, rfl, vacant_emptied ?_ hsmall.2.1, ?_, ?_⟩
    · exact Nat.lt_of_lt_of_le (by decide) (Nat.le_max_right _ kMinBuckets)
    · apply Nat.div_le_div_right
      calc
        _ ≤ min (max sizeMb kMinCacheSizeMb) kMaxCacheSizeMb * 1024 * 1024 := Nat.sub_le _ _
        _ ≤ kMaxCacheSizeMb * 1024 * 1024 :=
          Nat.mul_le_mul_right _ (Nat.mul_le_mul_right _ (Nat.min_le_right _ _))
    · intro index
      rw [Arena.emptied]
      dsimp only
      split <;> rfl

theorem vacant_of_enable {ignoreTtl allocated : Bool} {sizeMb : Nat} {fresh : Arena}
    (hfresh : ((Cache.initial ignoreTtl).enable sizeMb allocated).arena = some fresh) :
    Vacant fresh := by
  rcases (Cache.initial ignoreTtl).enable_arena sizeMb allocated with hsame | ⟨made, hmade, hvacant, -⟩
  · rw [hsame] at hfresh
    cases hfresh
  · obtain rfl := mem_unique hmade hfresh
    exact hvacant

theorem exists_enabled : ∃ fresh, (Cache.initial false).enable 1 true = ⟨some fresh, 1, false⟩ ∧
    Vacant fresh ∧ fresh.nodeCount = 2967 := by
  obtain ⟨fresh, henable, hcount⟩ : ∃ fresh,
      (Cache.initial false).enable 1 true = ⟨some fresh, 1, false⟩ ∧ fresh.nodeCount = 2967 :=
    ⟨_, rfl, rfl⟩
  exact ⟨fresh, henable, vacant_of_enable (congrArg Cache.arena henable), hcount⟩

/-- The rule for whole runs: what holds of an empty arena, and of every arena that an operation
leaves if it held before, holds after every sequence of calls. All calls return. -/
theorem exists_steps_of_calls (inet : Inet) {inv : Arena → Prop}
    (hvacant : ∀ fresh, Vacant fresh → fresh.nodeCount ≤ kMaxNodes →
      (∀ index, (fresh.nodes index).name = []) → inv fresh)
    (hkeep : ∀ arena ignoreTtl operation, inv arena →
      ∃ arena', arena.step inet ignoreTtl operation = some arena' ∧ inv arena')
    (ignoreTtl : Bool) (calls : List Call) :
    ∃ cache, steps (Cache.step inet) (Cache.initial ignoreTtl) calls = some cache ∧
      ∀ arena ∈ cache.arena, inv arena := by
  have hinitial : ∀ arena ∈ (Cache.initial ignoreTtl).arena, inv arena := by
    rintro arena ⟨⟩
  refine exists_steps ?_ hinitial calls
  intro cache call hinv
  cases call with
  | enable sizeMb allocated =>
    refine ⟨_, rfl, ?_⟩
    rcases cache.enable_arena sizeMb allocated with hsame | ⟨fresh, hfresh, hempty, hsize, hnameless⟩
    · rw [hsame]
      exact hinv
    · rw [hfresh]
      rintro _ ⟨rfl⟩
      exact hvacant fresh hempty hsize hnameless
  | disable =>
    refine ⟨_, rfl, ?_⟩
    rintro arena ⟨⟩
  | operate operation =>
    cases harena : cache.arena with
    | none => exact ⟨cache, by simp [Cache.step, Cache.perform, harena], hinv⟩
    | some arena =>
      obtain ⟨arena', hstep, harena'⟩ := hkeep arena cache.ignoreTtl operation (hinv arena harena)
      obtain ⟨⟨same, answer⟩, hperform, rfl⟩ := map_eq_some_iff.mp hstep
      refine ⟨{ cache with arena := some same }, ?_, ?_⟩
      · simp [Cache.step, Cache.perform, harena, hperform]
      · rintro _ ⟨rfl⟩
        exact harena'
  | loadFromFile file clock =>
    cases harena : cache.arena with
    | none => exact ⟨cache, by simp [Cache.step, Cache.perform, harena], hinv⟩
    | some arena =>
      obtain ⟨arena', hrestore, harena'⟩ :=
        exists_steps (fun arena operation ↦ hkeep arena cache.ignoreTtl operation)
          (hinv arena harena) (restores inet clock (CacheFile.read file).records)
      rw [← restoreRecords_eq_steps] at hrestore
      refine ⟨{ cache with arena := some arena' }, ?_, ?_⟩
      · simp [Cache.step, Cache.perform, harena, CacheFile.loadFromFile, hrestore]
      · rintro _ ⟨rfl⟩
        exact harena'

/-- Whatever calls are made on a new cache object, each of them returns, and the arena is well
formed after them. -/
theorem wellFormed_of_calls (inet : Inet) (ignoreTtl : Bool) (calls : List Call) :
    ∃ cache, steps (Cache.step inet) (Cache.initial ignoreTtl) calls = some cache ∧
      ∀ arena ∈ cache.arena, WellFormed arena := by
  apply exists_steps_of_calls
  · exact fun fresh hvacant _ _ ↦ hvacant.wellFormed
  · exact fun arena ignoreTtl operation hwell ↦ hwell.step inet ignoreTtl operation

end DhcpServer.Dns.InternalCache
