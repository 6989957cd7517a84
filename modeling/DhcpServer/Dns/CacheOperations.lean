import DhcpServer.Dns.CacheContents

/-!
# The operations of the built-in cache

Each operation returns on a well-formed arena, and its effect is one `Change`: at most one record
is thrown out and at most one is written.
-/

namespace DhcpServer.Dns.InternalCache

open Library List Option Function

variable {arena arena' : Arena} {inet : Inet} {index : Nat} {domain : Bytes} {qtype : UInt16}
  {payload : Payload}

/-- What `storeInternal` accepts. -/
structure Storable (domain : Bytes) (qtype : UInt16) (ips : List Bytes) : Prop where
  domain_ne_nil : domain ≠ []
  ips_ne_nil : ips ≠ []
  qtype_eq : qtype = kTypeA ∨ qtype = kTypeAaaa
  length_lt : (lower domain).length < kMaxNameLen

theorem storable_iff {ips : List Bytes} :
    Storable domain qtype ips ↔ domain ≠ [] ∧ ips ≠ [] ∧ (qtype = kTypeA ∨ qtype = kTypeAaaa) ∧
      (lower domain).length < kMaxNameLen :=
  ⟨fun h ↦ ⟨h.1, h.2, h.3, h.4⟩, fun h ↦ ⟨h.1, h.2.1, h.2.2.1, h.2.2.2⟩⟩

instance {ips : List Bytes} : Decidable (Storable domain qtype ips) := decidable_of_iff _ storable_iff.symm

theorem storeInternal_not_storable (hstorable : ¬ Storable domain qtype payload.ips) (now : UInt32)
    (scanUs : Nat) : arena.storeInternal inet domain qtype payload now scanUs = some arena := by
  unfold Arena.storeInternal
  split_ifs with hempty hqtype hlength
  · rfl
  · rfl
  · rfl
  · simp only [Bool.or_eq_true, List.isEmpty_iff, not_or] at hempty
    exact absurd ⟨hempty.1, hempty.2, by tauto, not_le.mp hlength⟩ hstorable

theorem storeInternal_storable (hstorable : Storable domain qtype payload.ips) (now : UInt32)
    (scanUs : Nat) :
    arena.storeInternal inet domain qtype payload now scanUs =
      (arena.findNode (hashName (keyName domain)) (keyName domain) qtype).bind fun found ↦
        match found with
        | (some index, _) => some (arena.writeRecord inet index payload now)
        | (none, _) =>
          (arena.takeNode now scanUs).bind fun taken ↦
            match taken with
            | (taken, some index) =>
              some ((taken.linkNode index (hashName (keyName domain)) (keyName domain) qtype
                now).writeRecord inet index payload now)
            | (same, none) => some same := by
  have hempty : ¬ (domain.isEmpty || payload.ips.isEmpty) := by
    simp [hstorable.domain_ne_nil, hstorable.ips_ne_nil]
  have hqtype : ¬ (qtype ≠ kTypeA ∧ qtype ≠ kTypeAaaa) := by
    have := hstorable.qtype_eq
    tauto
  rw [Arena.storeInternal, if_neg hempty, if_neg hqtype, if_neg (not_le.mpr hstorable.length_lt)]
  rfl

def Arena.evictedFor (arena : Arena) (key : Key) (now : UInt32) : Option Nat :=
  if (arena.recordOf key).isSome then none else arena.evicted now

/-- A store: `old` is the record it refreshes, or a node with nothing but the key. -/
structure Stored (arena arena' : Arena) (inet : Inet) (key : Key) (payload : Payload) (now : UInt32)
    (index : Nat) (old : Node) : Prop where
  change : Change arena arena' (arena.evictedFor key now) (some index)
  evicted : ∀ gone ∈ arena.evictedFor key now, arena.Chained gone
  node : (arena'.nodes index).record = (old.written inet payload now).record
  key_eq : old.key = key
  old_eq : arena.recordOf key = some old.record ∨ (arena.recordOf key = none ∧ old.uses = 0)

theorem WellFormed.writeRecord (hwell : WellFormed arena) (hchained : arena.Chained index)
    (inet : Inet) (payload : Payload) (now : UInt32) :
    Stored arena (arena.writeRecord inet index payload now) inet (arena.nodes index).key payload now
      index (arena.nodes index) := by
  have hfound := hwell.recordOf_chained hchained
  have hevicted : arena.evictedFor (arena.nodes index).key now = none := by
    simp [Arena.evictedFor, hfound]
  constructor
  · rw [hevicted]
    apply hwell.rewrite hchained (sameShape_writeRecord arena inet index payload now)
    intro other hother
    rw [writeRecord_nodes, update_of_ne hother]
  · simp [hevicted]
  · rw [writeRecord_nodes, update_self]
  · rfl
  · exact .inl hfound

theorem written_key (node : Node) (inet : Inet) (payload : Payload) (now : UInt32) :
    (node.written inet payload now).key = node.key := by
  have hfields := sameButAddresses_withAddresses
    { node with storedMs := now, ttl := payload.ttl } inet payload.ips
  exact Prod.ext hfields.name hfields.qtype

theorem WellFormed.linkNode (hwell : WellFormed arena) (key : Key)
    (hnew : arena.recordOf key = none) (inet : Inet) (payload : Payload) (now : UInt32)
    (scanUs : Nat) :
    ∃ taken index old, arena.takeNode now scanUs = some (taken, some index) ∧ Stored arena
        ((taken.linkNode index (hashName key.1) key.1 key.2 now).writeRecord inet index payload now)
        inet key payload now index old := by
  have hnone := hwell.recordOf_eq_none.mp hnew
  obtain ⟨chains, free, hlayout⟩ := hwell
  obtain ⟨taken, index, chains', free', htake, htaken, hsame, hgone, hchained⟩ :=
    hlayout.takeNode now scanUs
  have hevicted : arena.evictedFor key now = arena.evicted now := by
    simp [Arena.evictedFor, hnew]
  have hfresh : ∀ other ∈ allMembers taken.numBuckets chains',
      ¬ ((taken.nodes other).name = key.1 ∧ (taken.nodes other).qtype = key.2) := by
    intro other hother hkey
    have hold := ((hchained other).mp (htaken.chained_iff.mpr hother)).1
    apply hnone other hold
    rw [Node.key, ← hsame.name, ← hsame.qtype, hkey.1, hkey.2]
  have hlinked := htaken.linkNode now hfresh
  have hmembers := htaken.linkNode_chained now hfresh
  generalize hlinkedArena : taken.linkNode index (hashName key.1) key.1 key.2 now = linked at *
  have hshape := sameShape_writeRecord linked inet index payload now
  have hnodes := linkNode_nodes taken index (hashName key.1) key.1 key.2 now
  rw [hlinkedArena] at hnodes
  have hothers : ∀ other ≠ index, linked.nodes other = taken.nodes other := by
    intro other hother
    rw [hnodes, update_of_ne hother]
  have hkey : (linked.nodes index).key = key := by
    rw [hnodes, update_self, Node.key]
  have hcount : linked.nodeCount = taken.nodeCount := by
    rw [← hlinkedArena]
    rfl
  refine ⟨taken, index, linked.nodes index, htake, ?_⟩
  rw [hlinkedArena]
  refine ⟨⟨?_, ?_, ?_, ?_, ?_⟩, ?_, ?_, hkey, ?_⟩
  · exact ⟨_, _, hlinked.of_sameShape hshape⟩
  · rw [hshape.nodeCount, hcount, hsame.nodeCount]
  · intro other hother
    have hne : other ≠ index := by
      rintro rfl
      exact hother rfl
    rw [writeRecord_nodes, update_of_ne hne, hothers other hne, hsame.record]
  · intro other
    rw [hshape.chained, hmembers, hchained, hevicted, Option.some.injEq, eq_comm]
  · intro other hother hold hkept
    -- the node was free, so it is in no chain unless it was evicted
    cases hother
    rw [hevicted] at hkept
    have hinHand : index ∈ [index] ++ free' := by simp
    exact absurd (htaken.chained_iff.mp ((hchained index).mpr ⟨hold, hkept⟩))
      (htaken.not_mem_chain hinHand)
  · rw [hevicted]
    exact fun gone hmem ↦ (hgone gone hmem).1
  · rw [writeRecord_nodes, update_self]
  · refine .inr ⟨hnew, ?_⟩
    rw [hnodes, update_self]

theorem WellFormed.storeInternal (hwell : WellFormed arena)
    (hstorable : Storable domain qtype payload.ips) (inet : Inet) (now : UInt32) (scanUs : Nat) :
    ∃ arena' index old, arena.storeInternal inet domain qtype payload now scanUs = some arena' ∧
      Stored arena arena' inet (keyName domain, qtype) payload now index old := by
  rw [storeInternal_storable hstorable]
  obtain ⟨found, walked, hfind, hfound⟩ := hwell.findNode (keyName domain, qtype)
  rw [hfind]
  cases found with
  | some index =>
    obtain ⟨hchained, hkey⟩ := (hfound index).mp rfl
    exact ⟨_, index, arena.nodes index, rfl, hkey ▸ hwell.writeRecord hchained inet payload now⟩
  | none =>
    have hnew : arena.recordOf (keyName domain, qtype) = none := by
      simp [Arena.recordOf, hfind]
    obtain ⟨taken, index, old, htake, hstored⟩ :=
      hwell.linkNode (keyName domain, qtype) hnew inet payload now scanUs
    refine ⟨_, index, old, ?_, hstored⟩
    simp only [bind_some, htake]

namespace Stored

variable {key : Key} {now : UInt32} {old : Node}

theorem key_written (hstored : Stored arena arena' inet key payload now index old) :
    (arena'.nodes index).key = key := by
  rw [← Node.record_key, hstored.node, Node.record_key, written_key, hstored.key_eq]

theorem recordOf_self (hstored : Stored arena arena' inet key payload now index old) :
    arena'.recordOf key = some (old.written inet payload now).record := by
  rw [← hstored.node, ← hstored.change.recordOf_written, hstored.key_written]

theorem recordOf_other (hwell : WellFormed arena)
    (hstored : Stored arena arena' inet key payload now index old) {other : Key}
    (hother : other ≠ key) :
    arena'.recordOf other =
      withoutKey arena.recordOf
        ((arena.evictedFor key now).map fun index ↦ (arena.nodes index).key) other := by
  apply hstored.change.recordOf_other hwell hstored.evicted
  rintro _ ⟨rfl⟩
  rw [hstored.key_written]
  exact hother.symm

theorem entries (hwell : WellFormed arena)
    (hstored : Stored arena arena' inet key payload now index old)
    (hnew : arena.recordOf key = none) (hevicted : arena.evictedFor key now = none) :
    arena'.entries = arena.entries + 1 := by
  have hchange := hstored.change
  rw [hevicted] at hchange
  have hfresh : ¬ arena.Chained index := by
    intro hchained
    apply hwell.recordOf_eq_none.mp hnew index hchained
    rw [← hchange.key_eq hchained (by simp), hstored.key_written]
  obtain ⟨members, hnodup, hmembers, hentries⟩ := hwell.exists_members
  obtain ⟨members', hnodup', hmembers', hentries'⟩ := hchange.wellFormed.exists_members
  have hperm : members'.Perm (index :: members) := by
    apply (perm_ext_iff_of_nodup hnodup' ?_).mpr
    · intro other
      rw [← hmembers', hchange.chained, mem_cons, ← hmembers]
      simp [eq_comm]
    · exact nodup_cons.mpr ⟨fun hmem ↦ hfresh ((hmembers index).mpr hmem), hnodup⟩
  rw [hentries, hentries', hperm.length_eq, length_cons]

end Stored

theorem Change.trans_unchanged {middle : Arena} {gone written : Option Nat}
    (hchange : Change arena middle gone written) (hshape : SameShape middle arena')
    (hnodes : arena'.nodes = middle.nodes) : Change arena arena' gone written := by
  have hunchanged := hchange.wellFormed.unchanged hshape hnodes
  constructor
  · exact hunchanged.wellFormed
  · rw [hunchanged.nodeCount, hchange.nodeCount]
  · rw [hnodes]
    exact hchange.record
  · intro index
    rw [hshape.chained, hchange.chained]
  · rw [hnodes]
    exact hchange.key

theorem WellFormed.missed (hwell : WellFormed arena) : Change arena arena.missed none none :=
  hwell.unchanged (sameShape_counters arena _) rfl

inductive LookedUp (arena : Arena) (inet : Inet) (ignoreTtl : Bool) (key : Key) (now : UInt32) :
    Arena → Option (List Bytes × UInt32) → Prop
  | absent {arena' : Arena} :
      arena.recordOf key = none → Change arena arena' none none →
      LookedUp arena inet ignoreTtl key now arena' none
  | expired {arena' : Arena} {index : Nat} :
      arena.Chained index → (arena.nodes index).key = key → ignoreTtl = false →
      (arena.nodes index).expired now = true → Change arena arena' (some index) none →
      LookedUp arena inet ignoreTtl key now arena' none
  | blank {arena' : Arena} {index : Nat} :
      arena.Chained index → (arena.nodes index).key = key →
      (arena.nodes index).texts inet = [] → Change arena arena' none none →
      LookedUp arena inet ignoreTtl key now arena' none
  | hit {arena' : Arena} {index : Nat} :
      arena.Chained index → (arena.nodes index).key = key →
      (ignoreTtl = true ∨ (arena.nodes index).expired now = false) →
      (arena.nodes index).texts inet ≠ [] → Change arena arena' none (some index) →
      arena'.nodes index =
        { arena.nodes index with uses := Arena.saturatingSucc (arena.nodes index).uses } →
      LookedUp arena inet ignoreTtl key now arena'
        (some ((arena.nodes index).texts inet, (arena.nodes index).lookupTtl ignoreTtl now))

/-- A name `lookup` does not even search for. -/
def Unsearched (domain : Bytes) : Prop := domain = [] ∨ kMaxNameLen ≤ (lower domain).length

theorem lookup_unsearched (hdomain : Unsearched domain) (ignoreTtl : Bool) (now : UInt32)
    (waitUs : Nat) : arena.lookup inet ignoreTtl domain qtype now waitUs = some (arena, none) := by
  unfold Arena.lookup
  split_ifs with hempty hlength
  · rfl
  · rfl
  · rw [List.isEmpty_iff] at hempty
    exact absurd hdomain (not_or.mpr ⟨hempty, hlength⟩)

theorem WellFormed.lookup (hwell : WellFormed arena) (hdomain : ¬ Unsearched domain) (inet : Inet)
    (ignoreTtl : Bool) (qtype : UInt16) (now : UInt32) (waitUs : Nat) :
    ∃ arena' result, arena.lookup inet ignoreTtl domain qtype now waitUs = some (arena', result) ∧
      LookedUp arena inet ignoreTtl (keyName domain, qtype) now arena' result := by
  obtain ⟨found, walked, hfind, hfound⟩ := hwell.findNode (keyName domain, qtype)
  have hempty : ¬ domain.isEmpty := fun h ↦ hdomain (.inl (List.isEmpty_iff.mp h))
  have hlength : ¬ kMaxNameLen ≤ (lower domain).length := fun h ↦ hdomain (.inr h)
  rw [Arena.lookup, if_neg hempty, if_neg hlength]
  simp only [hfind, bind_eq_bind, bind_some]
  cases found with
  | none =>
    have habsent : arena.recordOf (keyName domain, qtype) = none := by
      simp [Arena.recordOf, hfind]
    exact ⟨_, _, rfl, .absent habsent hwell.missed⟩
  | some index =>
    obtain ⟨hchained, hkey⟩ := (hfound index).mp rfl
    by_cases hexpired : (!ignoreTtl && (arena.nodes index).expired now)
    · obtain ⟨purged, hunlink, hchange⟩ := hwell.unlinkNode hchained
      have hname : (arena.nodes index).name = keyName domain := congrArg Prod.fst hkey
      rw [hname] at hunlink
      simp only [hexpired, if_true, hunlink, bind_some]
      simp only [Bool.and_eq_true, Bool.not_eq_true'] at hexpired
      have hshape : SameShape purged (Arena.missed { purged with
          counters := { purged.counters with evicted := purged.counters.evicted + 1 } }) :=
        sameShape_counters purged _
      refine ⟨_, _, rfl, .expired hchained hkey hexpired.1 hexpired.2 ?_⟩
      exact hchange.trans_unchanged hshape rfl
    · simp only [hexpired, if_false, Bool.false_eq_true]
      by_cases htexts : (arena.nodes index).texts inet = []
      · simp only [htexts, isEmpty_nil, if_true]
        exact ⟨_, _, rfl, .blank hchained hkey htexts hwell.missed⟩
      · simp only [List.isEmpty_iff, htexts, if_false]
        have hfresh : ignoreTtl = true ∨ (arena.nodes index).expired now = false := by
          simpa [or_iff_not_imp_left] using hexpired
        refine ⟨_, _, rfl, .hit hchained hkey hfresh htexts ?_ ?_⟩
        · apply hwell.rewrite hchained
            ((sameShape_counters arena _).trans (sameShape_bumpUse _ index))
          intro other hother
          rw [bumpUse_nodes, update_of_ne hother]
        · rw [bumpUse_nodes, update_self]

theorem WellFormed.erase (hwell : WellFormed arena) (domain : Bytes) (qtype : UInt16) :
    ∃ arena' found, arena.erase domain qtype = some (arena', found) ∧
      ((found = true ∧ ∃ index, arena.Chained index ∧
          (arena.nodes index).key = (keyName domain, qtype) ∧ Change arena arena' (some index) none) ∨
        (found = false ∧ arena' = arena ∧
          (domain = [] ∨ arena.recordOf (keyName domain, qtype) = none))) := by
  by_cases hempty : domain.isEmpty
  · refine ⟨arena, false, ?_, .inr ⟨rfl, rfl, .inl (List.isEmpty_iff.mp hempty)⟩⟩
    rw [Arena.erase, if_pos hempty]
  · obtain ⟨found, walked, hfind, hfound⟩ := hwell.findNode (keyName domain, qtype)
    rw [Arena.erase, if_neg hempty]
    simp only [hfind, bind_eq_bind, bind_some]
    cases found with
    | none =>
      refine ⟨arena, false, rfl, .inr ⟨rfl, rfl, .inr ?_⟩⟩
      simp [Arena.recordOf, hfind]
    | some index =>
      obtain ⟨hchained, hkey⟩ := (hfound index).mp rfl
      obtain ⟨unlinked, hunlink, hchange⟩ := hwell.unlinkNode hchained
      have hname : (arena.nodes index).name = keyName domain := congrArg Prod.fst hkey
      rw [hname] at hunlink
      exact ⟨unlinked, true, by simp [hunlink], .inl ⟨rfl, index, hchained, hkey, hchange⟩⟩

theorem layout_emptied (hnumBuckets : 0 < arena.numBuckets) (hnodeCount : 0 < arena.nodeCount) :
    Layout arena.emptied (fun _ ↦ []) (List.range arena.nodeCount).reverse [] := by
  have hnone : allMembers arena.emptied.numBuckets (fun _ ↦ ([] : List Nat)) = [] := by
    simp [allMembers]
  constructor
  · exact fun _ _ ↦ .nil
  · apply chain_below
    intro index hindex
    simp [Arena.link, Arena.emptied, hindex]
  · rw [hnone, append_nil]
    exact reverse_perm (List.range arena.nodeCount)
  · simp
  · simp [hnone]
  · rw [hnone]
    rfl
  · exact hnumBuckets
  · exact hnodeCount

structure Vacant (arena : Arena) : Prop where
  wellFormed : WellFormed arena
  not_chained : ∀ index, ¬ arena.Chained index

theorem Vacant.recordOf (hvacant : Vacant arena) (key : Key) : arena.recordOf key = none :=
  hvacant.wellFormed.recordOf_eq_none.mpr fun index hchained ↦
    absurd hchained (hvacant.not_chained index)

theorem Vacant.entries (hvacant : Vacant arena) : arena.entries = 0 := by
  obtain ⟨members, -, hmembers, hentries⟩ := hvacant.wellFormed.exists_members
  have hnone : members = [] :=
    eq_nil_iff_forall_not_mem.mpr fun index hmem ↦
      hvacant.not_chained index ((hmembers index).mpr hmem)
  rw [hentries, hnone, length_nil]

theorem vacant_emptied (hnumBuckets : 0 < arena.numBuckets) (hnodeCount : 0 < arena.nodeCount) :
    Vacant arena.emptied := by
  refine ⟨⟨_, _, layout_emptied hnumBuckets hnodeCount⟩, ?_⟩
  rintro index ⟨bucket, -, members, hchain, hmem⟩
  have hempty : members = [] := hchain.unique .nil
  simp [hempty] at hmem

theorem WellFormed.clear (hwell : WellFormed arena) : Vacant arena.clear := by
  obtain ⟨chains, free, hlayout⟩ := hwell
  exact vacant_emptied hlayout.numBuckets_pos hlayout.nodeCount_pos

end DhcpServer.Dns.InternalCache
