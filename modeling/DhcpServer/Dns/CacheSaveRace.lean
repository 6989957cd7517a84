import DhcpServer.Dns.CacheRoundTrip

/-!
# A save among other operations

`saveToFile` takes the lock to list the nodes worth keeping, reads the clock, and takes the lock
again for each node on the list; in between other tasks use the cache. `Copy` is a node as it was
copied, together with what an observer knows about that moment.
-/

namespace DhcpServer.Dns.InternalCache

open Library

variable {arena arena' : Arena} {inet : Inet} {operation : Operation} {index : Nat}

theorem Effect.stays (hwell : WellFormed arena) (heffect : Effect inet arena operation arena')
    (hchained : arena.Chained index) :
    (arena'.Chained index ∧ (arena'.nodes index).key = (arena.nodes index).key) ∨
      arena'.recordOf (arena.nodes index).key = none := by
  have hkept {gone written : Option Nat} (hchange : Change arena arena' gone written)
      (hgone : gone ≠ some index) :
      arena'.Chained index ∧ (arena'.nodes index).key = (arena.nodes index).key :=
    ⟨(hchange.chained index).mpr (.inr ⟨hchained, hgone⟩), hchange.key_eq hchained hgone⟩
  cases heffect with
  | kept _ hchange => exact .inl (hkept hchange (by simp))
  | @stored domain qtype payload time scanUs written old _ _ hstored =>
    by_cases hgone : arena.evictedFor (keyName domain, qtype) (nowMs time) = some index
    · -- only a store of another key evicts
      right
      have hother : (arena.nodes index).key ≠ (keyName domain, qtype) := by
        intro hkey
        have hpresent := hwell.recordOf_chained hchained
        rw [hkey] at hpresent
        simp [Arena.evictedFor, hpresent] at hgone
      rw [hstored.recordOf_other hwell hother, hgone]
      simp [withoutKey]
    · exact .inl (hkept hstored.change hgone)
  | used _ _ hchange _ => exact .inl (hkept hchange (by simp))
  | @dropped _ dropped _ _ hdropped hchange =>
    by_cases hindex : dropped = index
    · right
      rw [hchange.recordOf_dropped hwell hdropped, hindex, if_pos rfl]
    · exact .inl (hkept hchange (by simpa using hindex))
  | cleared => exact .inr (hwell.clear.recordOf _)

theorem Effect.renamed (hwell : WellFormed arena) (heffect : Effect inet arena operation arena')
    (index : Nat) :
    (arena'.nodes index).key = (arena.nodes index).key ∨
      arena.recordOf (arena'.nodes index).key = none := by
  have hsame (hrecord : (arena'.nodes index).record = (arena.nodes index).record) :
      (arena'.nodes index).key = (arena.nodes index).key := by
    rw [← Node.record_key, hrecord, Node.record_key]
  cases heffect with
  | kept _ hchange => exact .inl (hsame (hchange.record index (by simp)))
  | @stored domain qtype payload time scanUs written old _ _ hstored =>
    by_cases hindex : written = index
    · subst hindex
      rcases hstored.old_eq with hpresent | ⟨habsent, -⟩
      · -- the key is there: its node is kept, and it is the one written
        left
        obtain ⟨found, hchained, hkey, -⟩ := hwell.recordOf_eq_some.mp hpresent
        have hstays : arena.evictedFor (keyName domain, qtype) (nowMs time) ≠ some found := by
          simp [Arena.evictedFor, hpresent]
        have hkey' := hstored.change.key_eq hchained hstays
        have hfound : found = written := by
          apply hstored.change.wellFormed.chained_inj
          · exact (hstored.change.chained found).mpr (.inr ⟨hchained, hstays⟩)
          · exact (hstored.change.chained written).mpr (.inl rfl)
          · rw [hkey', hkey, hstored.key_written]
        rw [← hfound, hkey']
      · right
        rw [hstored.key_written]
        exact habsent
    · exact .inl (hsame (hstored.change.record index (by simpa using hindex)))
  | @used _ written _ _ hchained hchange _ =>
    by_cases hindex : written = index
    · subst hindex
      exact .inl (hchange.key_eq hchained (by simp))
    · exact .inl (hsame (hchange.record index (by simpa using hindex)))
  | dropped _ _ hchange => exact .inl (hsame (hchange.record index (by simp)))
  | cleared => exact .inl (hsame (record_clear arena index))

end DhcpServer.Dns.InternalCache

namespace DhcpServer.Dns.CacheFile

open Library InternalCache Function

/-! ## Steps -/

structure Copy where
  index : Nat
  node : Node
  /-- the time of the store that last wrote the node -/
  stored : Nat
  /-- the time of the copy -/
  time : Nat
  /-- the cache as it was from the snapshot to the copy, the latest state first -/
  moments : List Arena

/-- How far `saveToFile` has come. -/
inductive Save
  | idle
  | listed (left : List Nat)
  | writing (clock : Nat) (left : List Nat) (copies : List Copy)

structure State where
  arena : Arena
  time : Nat
  save : Save
  /-- for each node, when a store last wrote it -/
  stamps : Nat → Nat
  /-- the cache since the snapshot, the latest state first -/
  moments : List Arena

inductive Action
  /-- another task -/
  | operate (operation : Operation)
  | snapshot (time : Nat)
  | readClock (time : Nat)
  | reread (time : Nat)

def Action.time? : Action → Option Nat
  | .operate operation => operation.time?
  | .snapshot time | .readClock time | .reread time => some time

/-- The stamps after an operation that left `arena`. -/
def stampsAfter (arena : Arena) (stamps : Nat → Nat) : Operation → Nat → Nat
  | .store domain qtype payload time _ =>
    if Storable domain qtype payload.ips then
      match arena.findNode (hashName (keyName domain)) (keyName domain) qtype with
      | some (some index, _) => update stamps index time
      | _ => stamps
    else stamps
  | _ => stamps

namespace State

def start (arena : Arena) : State := ⟨arena, 0, .idle, fun _ ↦ 0, []⟩

def operated (state : State) (operation : Operation) (arena : Arena) : State :=
  { state with
    arena
    stamps := stampsAfter arena state.stamps operation
    moments := arena :: state.moments }

def copy (state : State) (index time : Nat) : Copy :=
  ⟨index, state.arena.nodes index, state.stamps index, time, state.moments⟩

def act (inet : Inet) (ignoreTtl : Bool) (state : State) : Action → Option State
  | .operate operation =>
    (state.arena.step inet ignoreTtl operation).map (state.operated operation)
  | .snapshot time =>
    match state.save with
    | .idle =>
      (CacheFile.snapshot ignoreTtl (nowMs time) state.arena).map fun kept ↦
        if kept.isEmpty then state
        else { state with save := .listed kept, moments := [state.arena] }
    | _ => none
  | .readClock time =>
    match state.save with
    | .listed left => some { state with save := .writing time left [] }
    | _ => none
  | .reread time =>
    match state.save with
    | .writing clock (index :: left) copies =>
      some { state with save := .writing clock left (copies ++ [state.copy index time]) }
    | _ => none

def step (inet : Inet) (ignoreTtl : Bool) (state : State) (action : Action) : Option State :=
  let time := action.time?.getD state.time
  if time < state.time then none else { state with time }.act inet ignoreTtl action

end State

/-- The (name, type) was in the cache all the time from the snapshot to the copy. -/
def Copy.Stayed (copy : Copy) : Prop := ∀ arena ∈ copy.moments, arena.recordOf copy.node.key ≠ none

def Copy.Current (copy : Copy) : Prop :=
  ∃ arena ∈ copy.moments.head?, arena.recordOf copy.node.key = some copy.node.record

/-- What is written of a copy is a record that was in the cache at some moment since the snapshot,
and that is still there if its (name, type) never left. Its lifetime is right if the record was
not stored again after the save read the clock. -/
structure Copy.Honest (copy : Copy) (ignoreTtl : Bool) (clock : Nat) : Prop where
  seen : ∃ arena ∈ copy.moments, arena.recordOf copy.node.key = some copy.node.record
  current : copy.Stayed → copy.Current
  ttl_le : copy.stored ≤ clock → savedTtl ignoreTtl (nowMs clock) copy.node ≤ copy.node.ttl
  le_ttl : copy.stored ≤ clock → copy.node.ttl.toNat - (copy.time - copy.stored) / 1000 ≤
      (savedTtl ignoreTtl (nowMs clock) copy.node).toNat
  one : copy.stored ≤ clock → savedTtl ignoreTtl (nowMs clock) copy.node = 1 →
    copy.node.ttl.toNat * 1000 ≤ copy.time - copy.stored + 1000

theorem elapsed_le {stored clock : Nat} (horder : stored ≤ clock) :
    (elapsedMs (nowMs clock) (nowMs stored)).toNat ≤ clock - stored := by
  simp only [elapsedMs, nowMs, UInt32.toNat_sub, UInt32.toNat_ofNat']
  omega

theorem savedTtl_bounds {node : Node} {now : UInt32} {age : Nat} (ignoreTtl : Bool)
    (hage : (elapsedMs now node.storedMs).toNat ≤ age) :
    savedTtl ignoreTtl now node ≤ node.ttl ∧
      node.ttl.toNat - age / 1000 ≤ (savedTtl ignoreTtl now node).toNat ∧
      (savedTtl ignoreTtl now node = 1 → node.ttl.toNat * 1000 ≤ age + 1000) := by
  generalize helapsed : elapsedMs now node.storedMs = elapsed at hage
  have hseconds : (elapsed / 1000).toNat = elapsed.toNat / 1000 := UInt32.toNat_div _ _
  unfold savedTtl
  rw [helapsed]
  dsimp only
  split_ifs with hcounts hexpired
  · simp only [Bool.and_eq_true, bne_iff_ne] at hcounts
    have hpositive : node.ttl.toNat ≠ 0 := fun h ↦ hcounts.2 (UInt32.toNat_inj.mp h)
    have hpast : node.ttl.toNat ≤ elapsed.toNat / 1000 := hseconds ▸ UInt32.le_iff_toNat_le.mp hexpired
    refine ⟨?_, ?_, ?_⟩
    · rw [UInt32.le_iff_toNat_le]
      exact Nat.one_le_iff_ne_zero.mpr hpositive
    · omega
    · omega
  · have hleft : elapsed.toNat / 1000 < node.ttl.toNat := by
      rw [← hseconds]
      exact not_le.mp fun h ↦ hexpired (UInt32.le_iff_toNat_le.mpr h)
    have hwritten : (node.ttl - elapsed / 1000).toNat = node.ttl.toNat - elapsed.toNat / 1000 := by
      rw [UInt32.toNat_sub_of_le _ _ (UInt32.le_iff_toNat_le.mpr (by omega)), hseconds]
    refine ⟨?_, ?_, ?_⟩
    · rw [UInt32.le_iff_toNat_le, hwritten]
      omega
    · omega
    · intro hone
      have hvalue := congrArg UInt32.toNat hone
      rw [hwritten, UInt32.toNat_one] at hvalue
      omega
  · refine ⟨UInt32.le_refl _, by omega, ?_⟩
    intro hone
    have hvalue : node.ttl.toNat = 1 := congrArg UInt32.toNat hone
    omega

theorem stampsAfter_of_not_accepted {operation : Operation} (hrefused : ¬ operation.Accepted)
    (arena : Arena) (stamps : Nat → Nat) : stampsAfter arena stamps operation = stamps := by
  cases operation with
  | store => exact if_neg hrefused
  | lookup | erase | clear => rfl

variable {arena arena' : Arena} {inet : Inet} {ignoreTtl : Bool} {operation : Operation}

theorem storedMs_stampsAfter {stamps : Nat → Nat}
    (heffect : Effect inet arena operation arena')
    (hstamps : ∀ index, (arena.nodes index).storedMs = nowMs (stamps index)) (index : Nat) :
    (arena'.nodes index).storedMs = nowMs (stampsAfter arena' stamps operation index) := by
  have hsame (hrecord : (arena'.nodes index).record = (arena.nodes index).record) :
      (arena'.nodes index).storedMs = nowMs (stamps index) := by
    rw [← hstamps]
    simpa [Node.record] using congrArg Node.storedMs hrecord
  cases heffect with
  | kept hrefused hchange =>
    rw [stampsAfter_of_not_accepted hrefused]
    exact hsame (hchange.record index (by simp))
  | @stored domain qtype payload time scanUs written old _ hstorable hstored =>
    obtain ⟨found, walked, hfind, hfound⟩ := hstored.change.wellFormed.findNode (keyName domain, qtype)
    have hwritten : found = some written :=
      (hfound written).mpr ⟨(hstored.change.chained written).mpr (.inl rfl), hstored.key_written⟩
    have hstamp : stampsAfter arena' stamps (.store domain qtype payload time scanUs) =
        update stamps written time := by
      simp only [stampsAfter, if_pos hstorable, hfind, hwritten]
    rw [hstamp]
    by_cases hindex : index = written
    · subst hindex
      have hnode := hstored.standsFor hstorable
      rw [← hstored.node] at hnode
      rw [update_self]
      exact hnode.storedMs
    · rw [update_of_ne hindex]
      exact hsame (hstored.change.record index (by simpa using Ne.symm hindex))
  | @used _ written _ hrefused _ hchange hnode =>
    rw [stampsAfter_of_not_accepted hrefused]
    by_cases hindex : index = written
    · subst hindex
      rw [hnode, ← hstamps]
    · exact hsame (hchange.record index (by simpa using Ne.symm hindex))
  | dropped hrefused _ hchange =>
    rw [stampsAfter_of_not_accepted hrefused]
    exact hsame (hchange.record index (by simp))
  | cleared => exact hsame (record_clear arena index)

/-- The node still has the key it had at the snapshot, or one that was not in the cache at some
moment since. -/
def Named (origin : Arena) (moments : List Arena) (index : Nat) (node : Node) : Prop :=
  node.key = (origin.nodes index).key ∨ ∃ arena ∈ moments, arena.recordOf node.key = none

/-- What is known of the nodes a save still has to copy; `origin` is the cache at the snapshot. -/
structure Watched (arena : Arena) (moments : List Arena) (origin : Arena) (left : List Nat) : Prop where
  latest : moments.head? = some arena
  chained : ∀ index ∈ left, origin.Chained index
  seen : ∀ index ∈ left, ∃ moment ∈ moments,
    moment.recordOf (arena.nodes index).key = some (arena.nodes index).record
  stays : ∀ index ∈ left, (∀ moment ∈ moments, moment.recordOf (origin.nodes index).key ≠ none) →
    arena.Chained index ∧ (arena.nodes index).key = (origin.nodes index).key
  named : ∀ index ∈ left, Named origin moments index (arena.nodes index)

variable {moments : List Arena} {origin : Arena} {left : List Nat}

namespace Watched

theorem operate (hwatched : Watched arena moments origin left) (hwell : WellFormed arena)
    (heffect : Effect inet arena operation arena') :
    Watched arena' (arena' :: moments) origin left := by
  have hwell' : WellFormed arena' := heffect.wellFormed hwell
  have harena : arena ∈ moments := List.mem_of_mem_head? hwatched.latest
  constructor
  case latest => rfl
  case chained => exact hwatched.chained
  case seen =>
    intro index hindex
    rcases heffect.touched index with hsame | hchained
    · obtain ⟨moment, hmoment, hrecord⟩ := hwatched.seen index hindex
      refine ⟨moment, List.mem_cons_of_mem arena' hmoment, ?_⟩
      rw [← Node.record_key, hsame, Node.record_key]
      exact hrecord
    · exact ⟨arena', List.mem_cons_self, hwell'.recordOf_chained hchained⟩
  case stays =>
    intro index hindex hpresent
    obtain ⟨hnow, hbefore⟩ := List.forall_mem_cons.mp hpresent
    obtain ⟨hchained, hkey⟩ := hwatched.stays index hindex hbefore
    rcases heffect.stays hwell hchained with ⟨hchained', hkey'⟩ | hgone
    · exact ⟨hchained', hkey'.trans hkey⟩
    · rw [hkey] at hgone
      exact absurd hgone hnow
  case named =>
    intro index hindex
    rcases heffect.renamed hwell index with hkey | habsent
    · rcases hwatched.named index hindex with horigin | ⟨moment, hmoment, habsent⟩
      · exact .inl (hkey.trans horigin)
      · exact .inr ⟨moment, List.mem_cons_of_mem arena' hmoment, hkey ▸ habsent⟩
    · exact .inr ⟨arena, List.mem_cons_of_mem arena' harena, habsent⟩

theorem of_snapshot (hwell : WellFormed arena) (hchained : ∀ index ∈ left, arena.Chained index) :
    Watched arena [arena] arena left where
  latest := rfl
  chained := hchained
  seen index hindex := ⟨arena, List.mem_singleton_self _, hwell.recordOf_chained (hchained index hindex)⟩
  stays index hindex _ := ⟨hchained index hindex, rfl⟩
  named _ _ := .inl rfl

theorem tail {index : Nat} (hwatched : Watched arena moments origin (index :: left)) :
    Watched arena moments origin left where
  latest := hwatched.latest
  chained other hother := hwatched.chained other (List.mem_cons_of_mem index hother)
  seen other hother := hwatched.seen other (List.mem_cons_of_mem index hother)
  stays other hother := hwatched.stays other (List.mem_cons_of_mem index hother)
  named other hother := hwatched.named other (List.mem_cons_of_mem index hother)

end Watched

theorem Watched.honest {index stored clock time : Nat}
    (hwatched : Watched arena moments origin (index :: left)) (hwell : WellFormed arena)
    (hstored : (arena.nodes index).storedMs = nowMs stored) (hclock : clock ≤ time) :
    (Copy.mk index (arena.nodes index) stored time moments).Honest ignoreTtl clock := by
  have hindex : index ∈ index :: left := List.mem_cons_self
  have hage (horder : stored ≤ clock) :
      (elapsedMs (nowMs clock) (arena.nodes index).storedMs).toNat ≤ time - stored := by
    rw [hstored]
    calc
      _ ≤ clock - stored := elapsed_le horder
      _ ≤ time - stored := Nat.sub_le_sub_right hclock stored
  constructor
  case seen => exact hwatched.seen index hindex
  case current =>
    intro hstayed
    refine ⟨arena, hwatched.latest, ?_⟩
    have hkey : (arena.nodes index).key = (origin.nodes index).key := by
      rcases hwatched.named index hindex with hkey | ⟨moment, hmoment, habsent⟩
      · exact hkey
      · exact absurd habsent (hstayed moment hmoment)
    refine hwell.recordOf_chained (hwatched.stays index hindex ?_).1
    rw [← hkey]
    exact hstayed
  case ttl_le => exact fun horder ↦ (savedTtl_bounds ignoreTtl (hage horder)).1
  case le_ttl => exact fun horder ↦ (savedTtl_bounds ignoreTtl (hage horder)).2.1
  case one => exact fun horder ↦ (savedTtl_bounds ignoreTtl (hage horder)).2.2

/-- No (name, type) that stayed in the cache is copied again. -/
def Distinct (copies : List Copy) : Prop :=
  copies.Pairwise fun first second ↦ first.node.key = second.node.key → ¬ second.Stayed

structure Copied (moments : List Arena) (origin : Arena) (ignoreTtl : Bool) (clock : Nat)
    (copies : List Copy) : Prop where
  honest : ∀ copy ∈ copies, copy.Honest ignoreTtl clock
  distinct : Distinct copies
  chained : ∀ copy ∈ copies, origin.Chained copy.index
  subset : ∀ copy ∈ copies, copy.moments ⊆ moments
  named : ∀ copy ∈ copies, Named origin copy.moments copy.index copy.node

namespace Copied

variable {clock : Nat} {copies : List Copy}

theorem nil : Copied moments origin ignoreTtl clock [] := by
  constructor <;> simp [Distinct]

theorem operate (hcopied : Copied moments origin ignoreTtl clock copies) (arena : Arena) :
    Copied (arena :: moments) origin ignoreTtl clock copies where
  honest := hcopied.honest
  distinct := hcopied.distinct
  chained := hcopied.chained
  subset copy hcopy := List.Subset.trans (hcopied.subset copy hcopy) (List.subset_cons_self arena moments)
  named := hcopied.named

theorem key_eq {copy : Copy} {index : Nat} {earlier : List Arena} {node : Node}
    (hstayed : copy.Stayed) (hnamed : Named origin earlier index node)
    (hearlier : earlier ⊆ copy.moments) (hkey : node.key = copy.node.key) :
    copy.node.key = (origin.nodes index).key := by
  rcases hnamed with horigin | ⟨moment, hmoment, habsent⟩
  · exact hkey.symm.trans horigin
  · rw [hkey] at habsent
    exact absurd habsent (hstayed moment (hearlier hmoment))

theorem snoc {copy : Copy} (hcopied : Copied copy.moments origin ignoreTtl clock copies)
    (horigin : WellFormed origin) (hhonest : copy.Honest ignoreTtl clock)
    (hchained : origin.Chained copy.index)
    (hnamed : Named origin copy.moments copy.index copy.node)
    (hnew : copy.index ∉ copies.map Copy.index) :
    Copied copy.moments origin ignoreTtl clock (copies ++ [copy]) := by
  constructor
  case honest => exact List.forall_mem_append.mpr ⟨hcopied.honest, by simpa using hhonest⟩
  case chained => exact List.forall_mem_append.mpr ⟨hcopied.chained, by simpa using hchained⟩
  case subset => exact List.forall_mem_append.mpr ⟨hcopied.subset, by simp⟩
  case named => exact List.forall_mem_append.mpr ⟨hcopied.named, by simpa using hnamed⟩
  case distinct =>
    refine List.pairwise_append.mpr ⟨hcopied.distinct, List.pairwise_singleton _ _, ?_⟩
    simp only [List.mem_singleton, forall_eq]
    intro first hfirst hkey hstayed
    have hfirstKey := key_eq hstayed (hcopied.named first hfirst) (hcopied.subset first hfirst) hkey
    have hsecondKey := key_eq hstayed hnamed (List.Subset.refl _) rfl
    have hsame : first.index = copy.index :=
      horigin.chained_inj (hcopied.chained first hfirst) hchained (hfirstKey.symm.trans hsecondKey)
    exact hnew (hsame ▸ List.mem_map_of_mem hfirst)

end Copied

/-! ## Runs -/

def Save.Sound (arena : Arena) (moments : List Arena) (time : Nat) (ignoreTtl : Bool) : Save → Prop
  | .idle => True
  | .listed left => ∃ origin, WellFormed origin ∧ Watched arena moments origin left ∧ left.Nodup
  | .writing clock left copies =>
    ∃ origin, WellFormed origin ∧ Watched arena moments origin left ∧
      (copies.map Copy.index ++ left).Nodup ∧ clock ≤ time ∧
      Copied moments origin ignoreTtl clock copies

structure State.Sound (ignoreTtl : Bool) (state : State) : Prop where
  wellFormed : WellFormed state.arena
  stamps : ∀ index, (state.arena.nodes index).storedMs = nowMs (state.stamps index)
  save : state.save.Sound state.arena state.moments state.time ignoreTtl

namespace State.Sound

variable {state state' : State}

section

variable (hsound : state.Sound ignoreTtl)
include hsound

theorem later {time : Nat} (htime : state.time ≤ time) : { state with time }.Sound ignoreTtl := by
  refine ⟨hsound.wellFormed, hsound.stamps, ?_⟩
  have hsave := hsound.save
  cases hstage : state.save with
  | idle => trivial
  | listed left =>
    rw [hstage] at hsave
    exact hsave
  | writing clock left copies =>
    rw [hstage] at hsave
    obtain ⟨origin, horigin, hwatched, hnodup, hclock, hcopied⟩ := hsave
    exact ⟨origin, horigin, hwatched, hnodup, hclock.trans htime, hcopied⟩

theorem operate (heffect : Effect inet state.arena operation arena') :
    (state.operated operation arena').Sound ignoreTtl := by
  refine ⟨heffect.wellFormed hsound.wellFormed, storedMs_stampsAfter heffect hsound.stamps, ?_⟩
  have hsave := hsound.save
  change state.save.Sound arena' (arena' :: state.moments) state.time ignoreTtl
  cases hstage : state.save with
  | idle => trivial
  | listed left =>
    rw [hstage] at hsave
    obtain ⟨origin, horigin, hwatched, hnodup⟩ := hsave
    exact ⟨origin, horigin, hwatched.operate hsound.wellFormed heffect, hnodup⟩
  | writing clock left copies =>
    rw [hstage] at hsave
    obtain ⟨origin, horigin, hwatched, hnodup, hclock, hcopied⟩ := hsave
    exact ⟨origin, horigin, hwatched.operate hsound.wellFormed heffect, hnodup, hclock,
      hcopied.operate arena'⟩

theorem snapshot {now : UInt32} {kept : List Nat}
    (hkept : CacheFile.snapshot ignoreTtl now state.arena = some kept) :
    { state with save := .listed kept, moments := [state.arena] }.Sound ignoreTtl := by
  obtain ⟨same, hsame, hnodup, hmem, -⟩ := snapshot_spec hsound.wellFormed ignoreTtl now
  obtain rfl := Option.mem_unique hsame hkept
  refine ⟨hsound.wellFormed, hsound.stamps, state.arena, hsound.wellFormed, ?_, hnodup⟩
  exact .of_snapshot hsound.wellFormed fun index hindex ↦ ((hmem index).mp hindex).1

theorem readClock (hstage : state.save = .listed left) :
    { state with save := .writing state.time left [] }.Sound ignoreTtl := by
  have hsave := hsound.save
  rw [hstage] at hsave
  obtain ⟨origin, horigin, hwatched, hnodup⟩ := hsave
  exact ⟨hsound.wellFormed, hsound.stamps, origin, horigin, hwatched, hnodup, le_rfl, .nil⟩

theorem reread {clock index : Nat} {copies : List Copy}
    (hstage : state.save = .writing clock (index :: left) copies) :
    { state with
      save := .writing clock left (copies ++ [state.copy index state.time]) }.Sound ignoreTtl := by
  have hsave := hsound.save
  rw [hstage] at hsave
  obtain ⟨origin, horigin, hwatched, hnodup, hclock, hcopied⟩ := hsave
  have hindex : index ∈ index :: left := List.mem_cons_self
  have hhonest : (state.copy index state.time).Honest ignoreTtl clock :=
    hwatched.honest hsound.wellFormed (hsound.stamps index) hclock
  have hnew : index ∉ copies.map Copy.index := fun hmem ↦ List.disjoint_of_nodup_append hnodup hmem hindex
  refine ⟨hsound.wellFormed, hsound.stamps, origin, horigin, hwatched.tail, ?_, hclock, ?_⟩
  · simpa [State.copy] using hnodup
  · have hbefore : Copied (state.copy index state.time).moments origin ignoreTtl clock copies :=
      hcopied
    exact hbefore.snoc horigin hhonest (hwatched.chained index hindex)
      (hwatched.named index hindex) hnew

theorem step {action : Action}
    (hstep : state.step inet ignoreTtl action = some state') : state'.Sound ignoreTtl := by
  simp only [State.step] at hstep
  split_ifs at hstep with hpast
  have hlater := hsound.later (not_lt.mp hpast)
  cases action with
  | operate operation =>
    obtain ⟨arena', hperform, rfl⟩ := Option.map_eq_some_iff.mp hstep
    exact hlater.operate (hsound.wellFormed.effect hperform)
  | snapshot time =>
    simp only [State.act] at hstep
    split at hstep
    case h_2 => cases hstep
    case h_1 =>
      obtain ⟨kept, hkept, rfl⟩ := Option.map_eq_some_iff.mp hstep
      split_ifs with hempty
      · exact hlater
      · exact hlater.snapshot hkept
  | readClock time =>
    simp only [State.act] at hstep
    split at hstep
    case h_2 => cases hstep
    case h_1 left hstage =>
      cases hstep
      exact hlater.readClock hstage
  | reread time =>
    simp only [State.act] at hstep
    split at hstep
    case h_2 => cases hstep
    case h_1 clock index left copies hstage =>
      cases hstep
      exact hlater.reread hstage

end

end State.Sound

theorem storedMs_of_enable {allocated : Bool} {sizeMb : Nat} {fresh : Arena}
    (hfresh : ((Cache.initial ignoreTtl).enable sizeMb allocated).arena = some fresh)
    (index : Nat) : (fresh.nodes index).storedMs = 0 := by
  unfold Cache.enable at hfresh
  dsimp only at hfresh
  split_ifs at hfresh
  · cases hfresh
  · cases hfresh
  · cases hfresh
    rw [Arena.emptied]
    dsimp only
    split <;> rfl

theorem State.sound_start {allocated : Bool} {sizeMb : Nat} {fresh : Arena}
    (hfresh : ((Cache.initial ignoreTtl).enable sizeMb allocated).arena = some fresh) :
    (State.start fresh).Sound ignoreTtl where
  wellFormed := (vacant_of_enable hfresh).wellFormed
  stamps := storedMs_of_enable hfresh
  save := trivial

/-- However a save and the operations of other tasks are interleaved, what it has copied so far is
honest, and no (name, type) that stayed in the cache is copied twice. -/
theorem honest_of_steps {allocated : Bool} {sizeMb : Nat} {fresh : Arena}
    (hfresh : ((Cache.initial ignoreTtl).enable sizeMb allocated).arena = some fresh)
    {actions : List Action} {last : State}
    (hsteps : steps (State.step inet ignoreTtl) (State.start fresh) actions = some last)
    {clock : Nat} {copies : List Copy} (hsave : last.save = .writing clock left copies) :
    (∀ copy ∈ copies, copy.Honest ignoreTtl clock) ∧ Distinct copies := by
  have hsound : last.Sound ignoreTtl :=
    (run_of_steps hsteps).preserves (fun _ _ _ hinv hstep ↦ hinv.step hstep)
      (State.sound_start hfresh)
  have hwriting := hsound.save
  rw [hsave] at hwriting
  obtain ⟨origin, -, -, -, -, hcopied⟩ := hwriting
  exact ⟨hcopied.honest, hcopied.distinct⟩

theorem snapshot_single {fresh : Arena} {key : Key} {payload : Payload} {now later : UInt32}
    {index : Nat} {old : Node} (hvacant : Vacant fresh)
    (hstored : Stored fresh arena inet key payload now index old)
    (hkeeps : keepsNode ignoreTtl later (arena.nodes index)) :
    snapshot ignoreTtl later arena = some [index] := by
  obtain ⟨kept, hkept, hnodup, hmem, -⟩ := snapshot_spec hstored.change.wellFormed ignoreTtl later
  have honly (other : Nat) : other ∈ kept ↔ other = index := by
    rw [hmem, hstored.change.chained]
    constructor
    · rintro ⟨hwritten | ⟨hchained, -⟩, -⟩
      · exact (Option.some.inj hwritten).symm
      · exact absurd hchained (hvacant.not_chained other)
    · rintro rfl
      exact ⟨.inl rfl, hkeeps⟩
  rw [hkept]
  congr 1
  exact List.perm_singleton.mp ((List.perm_ext_iff_of_nodup hnodup (List.nodup_singleton index)).mpr
    fun other ↦ (honly other).trans List.mem_singleton.symm)

def samplePayload : Payload := ⟨[sampleText], 60, none⟩

def opened : List Action := [.operate (.store [0x61] kTypeA samplePayload 5 0), .snapshot 6, .readClock 7]

theorem exists_opened : ∃ fresh arena index stamps,
      ((Cache.initial false).enable 1 true).arena = some fresh ∧
      steps (State.step sampleInet false) (State.start fresh) opened =
        some ⟨arena, 7, .writing 7 [index] [], stamps, [arena]⟩ ∧
      WellFormed arena ∧ arena.Chained index ∧ (arena.nodes index).key = ([0x61], kTypeA) := by
  have hstorable : Storable [0x61] kTypeA samplePayload.ips := by decide
  obtain ⟨fresh, hfresh⟩ : ∃ fresh, ((Cache.initial false).enable 1 true).arena = some fresh := ⟨_, rfl⟩
  have hvacant : Vacant fresh := vacant_of_enable hfresh
  obtain ⟨arena, index, old, hstore, hstored⟩ :=
    hvacant.wellFormed.storeInternal hstorable sampleInet (nowMs 5) 0
  have hkey : (arena.nodes index).key = ([0x61], kTypeA) := hstored.key_written
  have hkeeps : keepsNode false (nowMs 6) (arena.nodes index) := by
    have hstands := hstored.standsFor hstorable
    have hname : (arena.nodes index).name = [0x61] := congrArg Prod.fst hkey
    change keepsNode false (nowMs 6) (arena.nodes index).record = true
    rw [hstored.node, keepsNode, Node.expired, hstands.ttl, hstands.storedMs, ← hstored.node]
    change (!(arena.nodes index).name.isEmpty && _) = true
    rw [hname]
    decide
  have hsnapshot := snapshot_single hvacant hstored hkeeps
  let stamps := stampsAfter arena (fun _ ↦ 0) (.store [0x61] kTypeA samplePayload 5 0)
  refine ⟨fresh, arena, index, stamps, hfresh, ?_, hstored.change.wellFormed,
    (hstored.change.chained index).mpr (.inl rfl), hkey⟩
  have hstep : fresh.step sampleInet false (.store [0x61] kTypeA samplePayload 5 0) = some arena := by
    rw [Arena.step, Arena.perform, hstore]
    rfl
  simp [opened, steps, State.step, State.act, State.start, State.operated, Action.time?,
    Operation.time?, hstep, hsnapshot, stamps]

/-- A save of one record that nobody disturbs. -/
theorem honest_of_steps_single : ∃ fresh last copy,
      ((Cache.initial false).enable 1 true).arena = some fresh ∧
      steps (State.step sampleInet false) (State.start fresh) (opened ++ [.reread 8]) = some last ∧
      last.save = .writing 7 [] [copy] ∧
      (∀ written ∈ [copy], written.Honest false 7) ∧ Distinct [copy] := by
  obtain ⟨fresh, arena, index, stamps, hfresh, hopened, -⟩ := exists_opened
  let copy : Copy := ⟨index, arena.nodes index, stamps index, 8, [arena]⟩
  let last : State := ⟨arena, 8, .writing 7 [] [copy], stamps, [arena]⟩
  have hsteps : steps (State.step sampleInet false) (State.start fresh) (opened ++ [.reread 8]) =
      some last := by
    rw [steps_append, hopened]
    rfl
  exact ⟨fresh, last, copy, hfresh, hsteps, rfl, honest_of_steps hfresh hsteps rfl⟩

/-- A record erased after it was listed is written all the same. -/
theorem current_fails_after_erase : ∃ fresh last copy,
      ((Cache.initial false).enable 1 true).arena = some fresh ∧
      steps (State.step sampleInet false) (State.start fresh)
        (opened ++ [.operate (.erase [0x61] kTypeA), .reread 8]) = some last ∧
      last.save = .writing 7 [] [copy] ∧ writesNode copy.node = true ∧ ¬ copy.Current := by
  obtain ⟨fresh, arena, index, stamps, hfresh, hopened, hwell, hchained, hkey⟩ := exists_opened
  obtain ⟨arena', found, herase, hcases⟩ := hwell.erase [0x61] kTypeA
  have hpresent : arena.recordOf (keyName [0x61], kTypeA) = some (arena.nodes index).record := by
    rw [← hwell.recordOf_chained hchained, hkey]
    rfl
  obtain ⟨dropped, hdropped, hdroppedKey, hchange⟩ : ∃ dropped, arena.Chained dropped ∧
      (arena.nodes dropped).key = ([0x61], kTypeA) ∧
      Change arena arena' (some dropped) none := by
    rcases hcases with ⟨-, hdropped⟩ | ⟨-, -, hempty | habsent⟩
    · exact hdropped
    · cases hempty
    · rw [hpresent] at habsent
      cases habsent
  have hkey' : (arena'.nodes index).key = ([0x61], kTypeA) := by
    rw [← Node.record_key, hchange.record index (by simp), Node.record_key, hkey]
  let copy : Copy := ⟨index, arena'.nodes index, stamps index, 8, [arena', arena]⟩
  let last : State := ⟨arena', 8, .writing 7 [] [copy], stamps, [arena', arena]⟩
  have hstep : arena.step sampleInet false (.erase [0x61] kTypeA) = some arena' := by
    rw [Arena.step, Arena.perform, herase]
    rfl
  refine ⟨fresh, last, copy, hfresh, ?_, rfl, ?_, ?_⟩
  · rw [steps_append, hopened]
    simp [steps, State.step, State.act, State.operated, State.copy, stampsAfter, Action.time?,
      Operation.time?, hstep, last, copy]
  · have hname : (arena'.nodes index).name = [0x61] := congrArg Prod.fst hkey'
    rw [writesNode, hname]
    decide
  · rintro ⟨moment, hmoment, hrecord⟩
    cases hmoment
    have hgone := hchange.recordOf_dropped hwell hdropped ([0x61], kTypeA)
    rw [if_pos hdroppedKey] at hgone
    rw [hkey', hgone] at hrecord
    cases hrecord

end DhcpServer.Dns.CacheFile
