import DhcpServer.Dns.CachePages

/-!
# The remaining lifetime

`lookup`, the cache view and the cache file each say how many seconds a record has left. The view and
the file subtract its age from its lifetime; `lookup` goes through milliseconds in 32 bits and rounds
up, so that a lifetime of more than 49.7 days comes out short.
-/

namespace DhcpServer.Dns.InternalCache

open Library List Option

open CacheFile (savedTtl Live FitsClock lookupTtl_eq_savedTtl_iff)

variable {inet : Inet} {arena arena' : Arena} {domain : Bytes} {qtype : UInt16} {key : Key} {node : Node}
  {ttl storedMs now : UInt32} {stored time waitUs : Nat}

def Operation.StoresKey (key : Key) : Operation → Prop
  | .store domain qtype payload _ _ => Storable domain qtype payload.ips ∧ (keyName domain, qtype) = key
  | _ => False

/-- What the cache holds under the key, if anything, was stored then with that lifetime. -/
def Stamped (key : Key) (ttl storedMs : UInt32) (arena : Arena) : Prop :=
  ∀ record, arena.recordOf key = some record → record.ttl = ttl ∧ record.storedMs = storedMs

theorem Stamped.effect {operation : Operation} (hstamped : Stamped key ttl storedMs arena)
    (hwell : WellFormed arena) (heffect : Effect inet arena operation arena')
    (hother : ¬operation.StoresKey key) : Stamped key ttl storedMs arena' := by
  have hmissing : arena'.recordOf key = none → Stamped key ttl storedMs arena' := by
    intro hnone record hrecord
    rw [hnone] at hrecord
    cases hrecord
  have hsame : arena'.recordOf key = arena.recordOf key → Stamped key ttl storedMs arena' := by
    intro hequal record hrecord
    exact hstamped record (hequal ▸ hrecord)
  cases heffect with
  | kept _ hchange => exact hsame (hchange.recordOf_unchanged hwell key)
  | stored hstorable hstored =>
    have hne : key ≠ _ := fun hequal ↦ hother ⟨hstorable, hequal.symm⟩
    have hfound := hstored.recordOf_other hwell hne
    rw [withoutKey] at hfound
    split_ifs at hfound
    · exact hmissing hfound
    · exact hsame hfound
  | @used _ index _ _ hchained hchange hnode =>
    by_cases hindex : (arena'.nodes index).key = key
    · intro record hrecord
      have hkey : (arena.nodes index).key = key := by
        rw [← hindex, hnode]
        rfl
      rw [← hindex, hchange.recordOf_written] at hrecord
      cases hrecord
      have hbefore := hstamped _ (hkey ▸ hwell.recordOf_chained hchained)
      rw [hnode]
      exact hbefore
    · exact hsame (hchange.recordOf_rewritten hwell hindex)
  | dropped _ hchained hchange =>
    have hfound := hchange.recordOf_dropped hwell hchained key
    split_ifs at hfound
    · exact hmissing hfound
    · exact hsame hfound
  | cleared => exact hmissing (hwell.clear.recordOf key)

theorem Stamped.steps {operations : List Operation} (hstamped : Stamped key ttl storedMs arena)
    (htidy : Tidy arena) (hother : ∀ operation ∈ operations, ¬operation.StoresKey key) {ignoreTtl : Bool}
    (hsteps : steps (Arena.step inet ignoreTtl) arena operations = some arena') :
    Stamped key ttl storedMs arena' ∧ Tidy arena' := by
  induction operations generalizing arena with
  | nil =>
    cases hsteps
    exact ⟨hstamped, htidy⟩
  | cons operation operations ih =>
    obtain ⟨hfirst, hrest⟩ := forall_mem_cons.mp hother
    rw [Library.steps, foldlM_cons] at hsteps
    obtain ⟨middle, hstep, hlater⟩ := bind_eq_some_iff.mp hsteps
    have heffect := htidy.wellFormed.effect hstep
    exact ih (hstamped.effect htidy.wellFormed heffect hfirst) (htidy.effect heffect) hrest hlater

def handedOut (inet : Inet) (arena : Arena) (domain : Bytes) (qtype : UInt16) (now : UInt32) (waitUs : Nat) :
    Option UInt32 :=
  ((arena.lookup inet false domain qtype now waitUs).bind Prod.snd).map Prod.snd

theorem texts_ne_nil {node : Node} (hsane : Sane node) : node.texts inet ≠ [] := by
  have hne : kTypeAaaa ≠ kTypeA := by decide
  have hlength : 0 < (node.texts inet).length := by
    rcases hsane.counts with ⟨htype, hsome, hroom, -⟩ | ⟨htype, -, hsome, hroom⟩
    · rw [Node.texts, if_pos htype, length_map, length_take, Vector.length_toList]
      omega
    · rw [Node.texts, if_neg (htype ▸ hne), if_pos htype, length_map, length_take, Vector.length_toList]
      omega
  exact ne_nil_of_length_pos hlength

theorem handedOut_eq (htidy : Tidy arena) (hsearched : ¬Unsearched domain)
    (hfound : arena.recordOf (keyName domain, qtype) = some node) (now : UInt32) (waitUs : Nat) :
    handedOut inet arena domain qtype now waitUs =
      if node.expired now then none else some (node.lookupTtl false now) := by
  obtain ⟨arena', result, hlookup, hlooked⟩ := htidy.wellFormed.lookup hsearched inet false qtype now waitUs
  have hresult : handedOut inet arena domain qtype now waitUs = result.map Prod.snd := by
    rw [handedOut, hlookup]
    rfl
  have hrecord {index : Nat} (hchained : arena.Chained index)
      (hkey : (arena.nodes index).key = (keyName domain, qtype)) : (arena.nodes index).record = node := by
    have hsame := htidy.wellFormed.recordOf_chained hchained
    rw [hkey, hfound] at hsame
    exact (Option.some.inj hsame).symm
  rw [hresult]
  cases hlooked with
  | absent hnone _ =>
    rw [hfound] at hnone
    cases hnone
  | expired hchained hkey _ hexpired _ =>
    have hpast : node.expired now := hrecord hchained hkey ▸ hexpired
    rw [if_pos hpast]
    rfl
  | blank hchained _ hblank _ => exact absurd hblank (texts_ne_nil (htidy.sane _ hchained))
  | hit hchained hkey hfresh _ _ _ =>
    have hfresh' : node.expired now = false := by
      rw [← hrecord hchained hkey]
      exact hfresh.resolve_left Bool.false_ne_true
    rw [hfresh', if_neg Bool.false_ne_true, ← hrecord hchained hkey]
    rfl

theorem handedOut_none (htidy : Tidy arena) (hmissing : arena.recordOf (keyName domain, qtype) = none)
    (now : UInt32) (waitUs : Nat) : handedOut inet arena domain qtype now waitUs = none := by
  have hnone := htidy.wellFormed.recordOf_eq_none.mp hmissing
  by_cases hsearched : Unsearched domain
  · rw [handedOut, lookup_unsearched hsearched]
    rfl
  · obtain ⟨arena', result, hlookup, hlooked⟩ :=
      htidy.wellFormed.lookup hsearched inet false qtype now waitUs
    rw [handedOut, hlookup]
    cases hlooked with
    | absent _ _ => rfl
    | expired hchained hkey _ _ _ => exact absurd hkey (hnone _ hchained)
    | blank hchained hkey _ _ => exact absurd hkey (hnone _ hchained)
    | hit hchained hkey _ _ _ _ => exact absurd hkey (hnone _ hchained)

/-- The record was stored at a time of the clock that is less than one turn of it ago. -/
structure StoredAt (node : Node) (stored time : Nat) : Prop where
  stamp : node.storedMs = nowMs stored
  order : InOrder stored time

section

variable (hat : StoredAt node stored time)
include hat

theorem StoredAt.elapsed : (elapsedMs (nowMs time) node.storedMs).toNat = time - stored := by
  rw [hat.stamp, elapsedMs_nowMs hat.order]

theorem StoredAt.age : (elapsedMs (nowMs time) node.storedMs / 1000).toNat = (time - stored) / 1000 := by
  rw [UInt32.toNat_div, hat.elapsed]
  rfl

theorem StoredAt.expired_iff (httl : node.ttl ≠ 0) :
    node.expired (nowMs time) ↔ node.ttl.toNat ≤ (time - stored) / 1000 := by
  rw [Node.expired, Bool.and_eq_true, bne_iff_ne, decide_eq_true_eq, UInt32.le_iff_toNat_le, hat.age]
  exact and_iff_right httl

theorem StoredAt.left (hage : (time - stored) / 1000 < node.ttl.toNat) :
    (savedTtl false (nowMs time) node).toNat = node.ttl.toNat - (time - stored) / 1000 ∧
      (fillEntryView false node (nowMs time)).remaining = savedTtl false (nowMs time) node := by
  have hforever : node.ttl ≠ 0 := by
    rintro hzero
    rw [hzero] at hage
    exact absurd hage (Nat.not_lt_zero _)
  have hfresh : ¬node.ttl ≤ elapsedMs (nowMs time) node.storedMs / 1000 := by
    rw [UInt32.le_iff_toNat_le, hat.age]
    omega
  have hsaved : savedTtl false (nowMs time) node =
      node.ttl - elapsedMs (nowMs time) node.storedMs / 1000 := by
    simp [savedTtl, hforever, hfresh]
  constructor
  · have hbelow : elapsedMs (nowMs time) node.storedMs / 1000 ≤ node.ttl := by
      rw [UInt32.le_iff_toNat_le, hat.age]
      exact hage.le
    rw [hsaved, UInt32.toNat_sub_of_le _ _ hbelow, hat.age]
  · rw [hsaved]
    simp only [fillEntryView, if_neg hfresh]

theorem StoredAt.fitsClock_iff (httl : node.ttl ≠ 0) :
    FitsClock false (nowMs time) node ↔ node.ttl.toNat * 1000 - (time - stored) + 999 < 0x100000000 := by
  simp [FitsClock, httl, hat.elapsed]

end

/-- What is said of the lifetime that a lookup hands out for a record, and of later lookups. -/
structure RemainingRight (inet : Inet) (arena : Arena) (domain : Bytes) (qtype : UInt16) (node : Node)
    (stored time : Nat) : Prop where
  succeeds : ∀ waitUs, (handedOut inet arena domain qtype (nowMs time) waitUs).isSome ↔
    (time - stored) / 1000 < node.ttl.toNat
  handed : ∀ waitUs, ∀ ttl ∈ handedOut inet arena domain qtype (nowMs time) waitUs,
    ttl.toNat = node.ttl.toNat - (time - stored) / 1000 ∧ 1 ≤ ttl.toNat ∧ ttl.toNat ≤ node.ttl.toNat
  shown : ∀ waitUs, ∀ ttl ∈ handedOut inet arena domain qtype (nowMs time) waitUs,
    ttl = (fillEntryView false node (nowMs time)).remaining ∧ ttl = savedTtl false (nowMs time) node
  falls : ∀ operations arena' later waitUs waitUs',
    (∀ operation ∈ operations, ¬operation.StoresKey (keyName domain, qtype)) →
    steps (Arena.step inet false) arena operations = some arena' → time ≤ later → InOrder stored later →
    ∀ ttl ∈ handedOut inet arena domain qtype (nowMs time) waitUs,
      ∀ ttl' ∈ handedOut inet arena' domain qtype (nowMs later) waitUs', ttl' ≤ ttl

/-- The lifetime in milliseconds, less the age and rounded up, fits 32 bits; or the record is expired. -/
def FitsMilliseconds (node : Node) (stored time : Nat) : Prop :=
  node.ttl.toNat ≤ (time - stored) / 1000 ∨ node.ttl.toNat * 1000 - (time - stored) + 999 < 0x100000000

theorem handedOut_spec (htidy : Tidy arena) (hsearched : ¬Unsearched domain)
    (hfound : arena.recordOf (keyName domain, qtype) = some node) (httl : node.ttl ≠ 0)
    (hat : StoredAt node stored time) (hfits : FitsMilliseconds node stored time) (waitUs : Nat) :
    handedOut inet arena domain qtype (nowMs time) waitUs =
      if (time - stored) / 1000 < node.ttl.toNat then some (savedTtl false (nowMs time) node) else none := by
  rw [handedOut_eq htidy hsearched hfound]
  by_cases hage : (time - stored) / 1000 < node.ttl.toNat
  · have hfresh : node.expired (nowMs time) = false := by
      rw [Bool.eq_false_iff, ne_eq, hat.expired_iff httl]
      omega
    have hclock : FitsClock false (nowMs time) node :=
      (hat.fitsClock_iff httl).mpr (hfits.resolve_left (by omega))
    rw [if_pos hage, hfresh, if_neg Bool.false_ne_true, (lookupTtl_eq_savedTtl_iff (.inr hfresh)).mpr hclock]
  · rw [if_neg hage, if_pos ((hat.expired_iff httl).mpr (by omega))]

theorem FitsMilliseconds.later {later : Nat} (hfits : FitsMilliseconds node stored time)
    (hlater : time ≤ later) :
    FitsMilliseconds node stored later := by
  unfold FitsMilliseconds at hfits ⊢
  omega

/-- The lifetime handed out is right exactly when it fits the milliseconds of `lookup`. -/
theorem remaining_right_iff (inet : Inet) (arena : Arena) (htidy : Tidy arena) (domain : Bytes)
    (qtype : UInt16)
    (hsearched : ¬Unsearched domain) (node : Node)
    (hfound : arena.recordOf (keyName domain, qtype) = some node) (httl : node.ttl ≠ 0)
    (stored time : Nat) (hat : StoredAt node stored time) :
    RemainingRight inet arena domain qtype node stored time ↔ FitsMilliseconds node stored time := by
  constructor
  · intro hright
    by_cases hage : node.ttl.toNat ≤ (time - stored) / 1000
    · exact .inl hage
    · have hfresh : node.expired (nowMs time) = false := by
        rw [Bool.eq_false_iff, ne_eq, hat.expired_iff httl]
        exact hage
      have hhanded : handedOut inet arena domain qtype (nowMs time) 0 =
          some (node.lookupTtl false (nowMs time)) := by
        rw [handedOut_eq htidy hsearched hfound, hfresh, if_neg Bool.false_ne_true]
      have hsaved := (hright.shown 0 _ hhanded).2
      exact .inr ((hat.fitsClock_iff httl).mp ((lookupTtl_eq_savedTtl_iff (.inr hfresh)).mp hsaved))
  · intro hfits
    have hspec (waitUs : Nat) : handedOut inet arena domain qtype (nowMs time) waitUs = _ :=
      handedOut_spec htidy hsearched hfound httl hat hfits waitUs
    have hmember (waitUs : Nat) (ttl : UInt32)
        (hhanded : ttl ∈ handedOut inet arena domain qtype (nowMs time) waitUs) :
        (time - stored) / 1000 < node.ttl.toNat ∧ ttl = savedTtl false (nowMs time) node := by
      rw [hspec, mem_def] at hhanded
      split_ifs at hhanded with hage
      exact ⟨hage, (Option.some.inj hhanded).symm⟩
    constructor
    · intro waitUs
      rw [hspec]
      split_ifs with hage <;> simp [hage]
    · intro waitUs ttl hhanded
      obtain ⟨hage, rfl⟩ := hmember waitUs ttl hhanded
      have hleft := (hat.left hage).1
      omega
    · intro waitUs ttl hhanded
      obtain ⟨hage, rfl⟩ := hmember waitUs ttl hhanded
      exact ⟨(hat.left hage).2.symm, rfl⟩
    · intro operations arena' later waitUs waitUs' hother hsteps hlater horder ttl hhanded ttl' hhanded'
      obtain ⟨hage, rfl⟩ := hmember waitUs ttl hhanded
      have hstamped : Stamped (keyName domain, qtype) node.ttl node.storedMs arena := by
        intro record hrecord
        obtain rfl := mem_unique hfound hrecord
        exact ⟨rfl, rfl⟩
      obtain ⟨hstamped', htidy'⟩ := hstamped.steps htidy hother hsteps
      cases hrecord : arena'.recordOf (keyName domain, qtype) with
      | none =>
        rw [handedOut_none htidy' hrecord] at hhanded'
        cases hhanded'
      | some record =>
        obtain ⟨hsame, hstamp⟩ := hstamped' record hrecord
        have hat' : StoredAt record stored later := ⟨hstamp.trans hat.stamp, horder⟩
        have hfits' : FitsMilliseconds record stored later := by
          rw [FitsMilliseconds, hsame]
          exact hfits.later hlater
        rw [handedOut_spec htidy' hsearched hrecord (hsame ▸ httl) hat' hfits', mem_def] at hhanded'
        split_ifs at hhanded' with hage'
        obtain rfl := Option.some.inj hhanded'
        have hleft := (hat.left hage).1
        have hleft' := (hat'.left hage').1
        rw [hsame] at hleft'
        rw [UInt32.le_iff_toNat_le, hleft, hleft']
        have hgrows : (time - stored) / 1000 ≤ (later - stored) / 1000 :=
          Nat.div_le_div_right (Nat.sub_le_sub_right hlater stored)
        omega

/-- A minute's lifetime, asked for after a second. -/
theorem remaining_right_minute :
    ∃ arena node, ¬Unsearched [0x61] ∧ Tidy arena ∧ arena.recordOf (keyName [0x61], kTypeA) = some node ∧
      node.ttl ≠ 0 ∧ StoredAt node 5 1005 ∧
      (RemainingRight sampleInet arena [0x61] kTypeA node 5 1005 ↔ FitsMilliseconds node 5 1005) := by
  have hstorable : Storable [0x61] kTypeA [sampleText] := by decide
  obtain ⟨cache, arena, fresh, index, old, hsteps, harena, -, hstored⟩ :=
    CacheFile.exists_single_store sampleInet ⟨[sampleText], 60, none⟩ hstorable 5
  have htidy : Tidy arena := tidy_of_steps hsteps arena harena
  have hstands := hstored.standsFor hstorable
  have hsearched : ¬Unsearched [0x61] := by
    rw [Unsearched, not_or]
    exact ⟨by decide, by decide⟩
  have httl : (old.written sampleInet ⟨[sampleText], 60, none⟩ (nowMs 5)).record.ttl ≠ 0 := by
    rw [hstands.ttl]
    decide
  have hat : StoredAt (old.written sampleInet ⟨[sampleText], 60, none⟩ (nowMs 5)).record 5 1005 :=
    ⟨hstands.storedMs, by decide, by decide⟩
  exact ⟨arena, _, hsearched, htidy, hstored.recordOf_self, httl, hat,
    remaining_right_iff sampleInet arena htidy [0x61] kTypeA hsearched _ hstored.recordOf_self httl 5 1005
      hat⟩

/-- A lifetime of 4294967 seconds is less than 2^32 milliseconds, and the lookup right after the store hands
out none of it: the 999 milliseconds for the rounding turn the counter. -/
theorem long_ttl_handed_out_as_zero : ∃ cache arena node,
      steps (Cache.step sampleInet) (Cache.initial false)
        [.enable 1 true, .operate (.store [0x61] kTypeA ⟨[sampleText], 4294967, none⟩ 5 0)] = some cache ∧
      cache.arena = some arena ∧ arena.recordOf (keyName [0x61], kTypeA) = some node ∧
      node.ttl = 4294967 ∧ StoredAt node 5 5 ∧
      handedOut sampleInet arena [0x61] kTypeA (nowMs 5) 0 = some 0 ∧
      ¬RemainingRight sampleInet arena [0x61] kTypeA node 5 5 := by
  have hstorable : Storable [0x61] kTypeA [sampleText] := by decide
  obtain ⟨cache, arena, fresh, index, old, hsteps, harena, -, hstored⟩ :=
    CacheFile.exists_single_store sampleInet ⟨[sampleText], 4294967, none⟩ hstorable 5
  have htidy : Tidy arena := tidy_of_steps hsteps arena harena
  have hstands := hstored.standsFor hstorable
  have hsearched : ¬Unsearched [0x61] := by
    rw [Unsearched, not_or]
    exact ⟨by decide, by decide⟩
  have hhanded : handedOut sampleInet arena [0x61] kTypeA (nowMs 5) 0 = some 0 := by
    rw [handedOut_eq htidy hsearched hstored.recordOf_self, Node.expired, Node.lookupTtl, hstands.ttl,
      hstands.storedMs]
    decide
  refine ⟨cache, arena, _, hsteps, harena, hstored.recordOf_self, hstands.ttl,
    ⟨hstands.storedMs, by decide, by decide⟩, hhanded, fun hright ↦ ?_⟩
  have hsome := (hright.handed 0 0 hhanded).2.1
  exact absurd hsome (by decide)

end DhcpServer.Dns.InternalCache
