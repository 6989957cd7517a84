import DhcpServer.Dns.CacheCalls

/-!
# What a record in the built-in cache looks like

Every record got its name and its addresses from a store that was accepted, so its name is a short
lower-case C string and it has addresses of its own family only.
-/

namespace DhcpServer.Dns.InternalCache

open Library List

variable {arena arena' : Arena} {inet : Inet} {node other : Node}

structure Sane (node : Node) : Prop where
  lowered : lower node.name = node.name
  zeroFree : 0 ∉ node.name
  length_lt : node.name.length < kMaxNameLen
  counts : (node.qtype = kTypeA ∧ 0 < node.nA ∧ node.nA ≤ kMaxA ∧ node.nAaaa = 0) ∨
    (node.qtype = kTypeAaaa ∧ node.nA = 0 ∧ 0 < node.nAaaa ∧ node.nAaaa ≤ kMaxAaaa)

theorem Sane.of_record (hsane : Sane node) (hrecord : other.record = node.record) : Sane other := by
  have hname : other.name = node.name := by
    simpa [Node.record] using congrArg Node.name hrecord
  have hqtype : other.qtype = node.qtype := by
    simpa [Node.record] using congrArg Node.qtype hrecord
  have hnA : other.nA = node.nA := by
    simpa [Node.record] using congrArg Node.nA hrecord
  have hnAaaa : other.nAaaa = node.nAaaa := by
    simpa [Node.record] using congrArg Node.nAaaa hrecord
  exact ⟨hname ▸ hsane.lowered, hname ▸ hsane.zeroFree, hname ▸ hsane.length_lt,
    by simpa only [hqtype, hnA, hnAaaa] using hsane.counts⟩

theorem toLower_toLower (byte : UInt8) : toLower (toLower byte) = toLower byte := by
  simp only [toLower, UInt8.le_iff_toNat_le]
  split_ifs with hupper hagain
  · have hsum := UInt8.toNat_add byte 32
    simp at hupper hagain hsum
    omega
  · rfl
  · rfl

theorem lower_keyName (domain : Bytes) : lower (keyName domain) = keyName domain := by
  have hlowered : ∀ byte ∈ keyName domain, toLower byte = byte := by
    intro byte hbyte
    obtain ⟨original, -, rfl⟩ := mem_map.mp ((takeWhile_sublist _).subset hbyte)
    exact toLower_toLower original
  rw [lower, map_congr_left hlowered, map_id']

theorem zero_not_mem_keyName (domain : Bytes) : 0 ∉ keyName domain := by
  intro hzero
  have hne := mem_takeWhile_imp hzero
  simp at hne

theorem length_keyName_le (domain : Bytes) : (keyName domain).length ≤ (lower domain).length :=
  (takeWhile_sublist _).length_le

theorem sane_written {domain : Bytes} {qtype : UInt16} {payload : Payload} {old : Node}
    (hstorable : Storable domain qtype payload.ips) (hkey : old.key = (keyName domain, qtype))
    (inet : Inet) (now : UInt32) : Sane (old.written inet payload now) := by
  obtain ⟨hname, hqtype⟩ := Prod.mk.inj hkey
  have hkey' := written_key old inet payload now
  obtain ⟨hname', hqtype'⟩ := Prod.mk.inj hkey'
  have hips : 0 < payload.ips.length := length_pos_of_ne_nil hstorable.ips_ne_nil
  constructor
  · rw [hname', hname]
    exact lower_keyName domain
  · rw [hname', hname]
    exact zero_not_mem_keyName domain
  · rw [hname', hname]
    exact (length_keyName_le domain).trans_lt hstorable.length_lt
  · rw [hqtype']
    have hne : kTypeAaaa ≠ kTypeA := by decide
    rcases hstorable.qtype_eq with htype | htype
    · refine .inl ⟨hqtype.trans htype, ?_⟩
      simp only [Node.written, Node.withAddresses, hqtype, htype, if_true, addressCount]
      exact ⟨lt_min hips (by decide), min_le_right _ _, trivial⟩
    · refine .inr ⟨hqtype.trans htype, ?_⟩
      simp only [Node.written, Node.withAddresses, hqtype, htype, hne, if_false, addressCount]
      exact ⟨trivial, lt_min hips (by decide), min_le_right _ _⟩

structure Tidy (arena : Arena) : Prop where
  wellFormed : WellFormed arena
  sane : ∀ index, arena.Chained index → Sane (arena.nodes index)
  nodeCount_le : arena.nodeCount ≤ kMaxNodes

theorem Change.sane {gone written : Option Nat} (hchange : Change arena arena' gone written)
    (hsane : ∀ index, arena.Chained index → Sane (arena.nodes index))
    (hwritten : ∀ index ∈ written, Sane (arena'.nodes index)) :
    ∀ index, arena'.Chained index → Sane (arena'.nodes index) := by
  intro index hchained
  by_cases hindex : written = some index
  · exact hwritten index hindex
  · have hold := ((hchange.chained index).mp hchained).resolve_left hindex
    exact (hsane index hold.1).of_record (hchange.record index hindex)

theorem Tidy.effect {operation : Operation} (htidy : Tidy arena)
    (heffect : Effect inet arena operation arena') : Tidy arena' := by
  refine ⟨heffect.wellFormed htidy.wellFormed, ?_, heffect.nodeCount ▸ htidy.nodeCount_le⟩
  cases heffect with
  | kept _ hchange => exact hchange.sane htidy.sane (by simp)
  | stored hstorable hstored =>
    apply hstored.change.sane htidy.sane
    rintro _ ⟨rfl⟩
    exact (sane_written hstorable hstored.key_eq inet _).of_record hstored.node
  | used _ hchained hchange hnode =>
    apply hchange.sane htidy.sane
    rintro _ ⟨rfl⟩
    rw [hnode]
    have hsane := htidy.sane _ hchained
    exact ⟨hsane.lowered, hsane.zeroFree, hsane.length_lt, hsane.counts⟩
  | dropped _ _ hchange => exact hchange.sane htidy.sane (by simp)
  | cleared =>
    exact fun index hchained ↦ absurd hchained (htidy.wellFormed.clear.not_chained index)

theorem tidy_of_calls (inet : Inet) (ignoreTtl : Bool) (calls : List Call) :
    ∃ cache, steps (Cache.step inet) (Cache.initial ignoreTtl) calls = some cache ∧
      ∀ arena ∈ cache.arena, Tidy arena := by
  apply exists_steps_of_calls
  · intro fresh hvacant hsize _
    exact ⟨hvacant.wellFormed, fun index hchained ↦ absurd hchained (hvacant.not_chained index), hsize⟩
  · intro arena ignoreTtl operation htidy
    obtain ⟨arena', hstep, -⟩ := htidy.wellFormed.step inet ignoreTtl operation
    exact ⟨arena', hstep, htidy.effect (htidy.wellFormed.effect hstep)⟩

theorem tidy_of_steps {built : Bool} {calls : List Call} {cache : Cache}
    (hcalls : steps (Cache.step inet) (Cache.initial built) calls = some cache) :
    ∀ arena ∈ cache.arena, Tidy arena := by
  obtain ⟨same, hsame, htidy⟩ := tidy_of_calls inet built calls
  obtain rfl := Option.mem_unique hsame hcalls
  exact htidy

theorem record_clear (arena : Arena) (index : Nat) :
    (arena.clear.nodes index).record = (arena.nodes index).record := by
  rw [Arena.clear, Arena.emptied]
  dsimp only
  split <;> rfl

theorem Effect.touched (heffect : Effect inet arena operation arena') (index : Nat) :
    (arena'.nodes index).record = (arena.nodes index).record ∨ arena'.Chained index := by
  have hwritten {gone written : Option Nat} (hchange : Change arena arena' gone written) :
      (arena'.nodes index).record = (arena.nodes index).record ∨ arena'.Chained index := by
    by_cases hindex : written = some index
    · exact .inr ((hchange.chained index).mpr (.inl hindex))
    · exact .inl (hchange.record index hindex)
  cases heffect with
  | kept _ hchange => exact hwritten hchange
  | stored _ hstored => exact hwritten hstored.change
  | used _ _ hchange _ => exact hwritten hchange
  | dropped _ _ hchange => exact hwritten hchange
  | cleared => exact .inl (record_clear arena index)

/-- A node that has a name holds a record as stores make it, also when the record is no longer in
the cache. -/
theorem sane_of_named {built : Bool} {calls : List Call} {cache : Cache}
    (hcalls : steps (Cache.step inet) (Cache.initial built) calls = some cache) :
    ∀ arena ∈ cache.arena, ∀ index, (arena.nodes index).name ≠ [] → Sane (arena.nodes index) := by
  have hrun : ∃ cache, steps (Cache.step inet) (Cache.initial built) calls = some cache ∧
      ∀ arena ∈ cache.arena,
        Tidy arena ∧ ∀ index, (arena.nodes index).name ≠ [] → Sane (arena.nodes index) := by
    apply exists_steps_of_calls
    · intro fresh hvacant hsize hnameless
      refine ⟨⟨hvacant.wellFormed, fun index hchained ↦ ?_, hsize⟩, fun index hname ↦ ?_⟩
      · exact absurd hchained (hvacant.not_chained index)
      · exact absurd (hnameless index) hname
    · intro arena ignoreTtl operation ⟨htidy, hnamed⟩
      obtain ⟨arena', hstep, -⟩ := htidy.wellFormed.step inet ignoreTtl operation
      have heffect := htidy.wellFormed.effect hstep
      have htidy' := htidy.effect heffect
      refine ⟨arena', hstep, htidy', fun index hname ↦ ?_⟩
      rcases heffect.touched index with hrecord | hchained
      · have hsame : (arena'.nodes index).name = (arena.nodes index).name := by
          simpa [Node.record] using congrArg Node.name hrecord
        exact (hnamed index (hsame ▸ hname)).of_record hrecord
      · exact htidy'.sane index hchained
  obtain ⟨same, hsame, hinv⟩ := hrun
  obtain rfl := Option.mem_unique hsame hcalls
  exact fun arena harena ↦ (hinv arena harena).2

end DhcpServer.Dns.InternalCache
