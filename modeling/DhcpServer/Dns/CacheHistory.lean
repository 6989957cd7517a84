import DhcpServer.Dns.CacheCalls

/-!
# The built-in cache and its history

`lastStore` and `evictedSince` say what a map would remember of a sequence of operations: the last
store of a name and a type that no `erase` or `clear` undid, and whether its record had to make room
since. A lookup agrees with this memory.
-/

namespace DhcpServer.Dns.InternalCache

open Library Option
open List hiding Vector

variable {arena arena' : Arena} {inet : Inet} {ignoreTtl : Bool} {domain : Bytes} {qtype : UInt16}

/-! ## Memory -/

def Arena.evictedKey (arena : Arena) : Operation → Option Key
  | .store domain qtype payload time _ =>
    if Storable domain qtype payload.ips then
      (arena.evictedFor (keyName domain, qtype) (nowMs time)).map fun index ↦
        (arena.nodes index).key
    else none
  | _ => none

structure Event where
  operation : Operation
  evicted : Option Key

def Step (inet : Inet) (ignoreTtl : Bool) (arena : Arena) (event : Event) (arena' : Arena) : Prop :=
  (∃ answer, arena.perform inet ignoreTtl event.operation = some (arena', answer)) ∧
    event.evicted = arena.evictedKey event.operation

/-- The operation stores a record for the lower-cased name and the type. -/
def Operation.Stores (name : Bytes) (qtype : UInt16) : Operation → Prop
  | .store domain qtype' payload _ _ =>
    Storable domain qtype' payload.ips ∧ lower domain = name ∧ qtype' = qtype
  | _ => False

instance (name : Bytes) (qtype : UInt16) : (operation : Operation) → Decidable (operation.Stores name qtype)
  | .store domain qtype' payload _ _ =>
    inferInstanceAs (Decidable (Storable domain qtype' payload.ips ∧ lower domain = name ∧ qtype' = qtype))
  | .lookup _ _ _ _ | .erase _ _ | .clear => inferInstanceAs (Decidable False)

/-- What is remembered of the last store after one more operation. -/
def Operation.remember (name : Bytes) (qtype : UInt16) (last : Option (Payload × Nat)) :
    Operation → Option (Payload × Nat)
  | .store domain qtype' payload time scanUs =>
    if (Operation.store domain qtype' payload time scanUs).Stores name qtype then
      some (payload, time)
    else last
  | .lookup _ _ _ _ => last
  | .erase domain qtype' => if lower domain = name ∧ qtype' = qtype then none else last
  | .clear => none

/-- The payload and the time of the most recent store for a lower-cased name and a type since the
last `erase` of it and the last `clear`. -/
def lastStore (name : Bytes) (qtype : UInt16) (events : List Event) : Option (Payload × Nat) :=
  events.foldl (fun last event ↦ event.operation.remember name qtype last) none

/-- A record for the key was evicted after the most recent store for it. -/
def evictedSince (name : Bytes) (qtype : UInt16) (events : List Event) : Bool :=
  events.foldl
    (fun evicted event ↦
      if event.operation.Stores name qtype then false
      else evicted || event.evicted == some (cString name, qtype))
    false

theorem lastStore_concat (name : Bytes) (qtype : UInt16) (events : List Event) (event : Event) :
    lastStore name qtype (events ++ [event]) =
      event.operation.remember name qtype (lastStore name qtype events) := by
  simp [lastStore]

theorem evictedSince_concat (name : Bytes) (qtype : UInt16) (events : List Event) (event : Event) :
    evictedSince name qtype (events ++ [event]) =
      if event.operation.Stores name qtype then false
      else evictedSince name qtype events || event.evicted == some (cString name, qtype) := by
  simp [evictedSince]

def Operation.time? : Operation → Option Nat
  | .store _ _ _ time _ => some time
  | .lookup _ _ time _ => some time
  | _ => none

def times (events : List Event) : List Nat := events.filterMap fun event ↦ event.operation.time?

theorem times_concat (events : List Event) (event : Event) :
    times (events ++ [event]) = times events ++ event.operation.time?.toList := by
  cases htime : event.operation.time? <;> simp [times, htime]

def Operation.domain? : Operation → Option Bytes
  | .store domain _ _ _ _ => some domain
  | .lookup domain _ _ _ => some domain
  | .erase domain _ => some domain
  | .clear => none

variable {name : Bytes} {events : List Event} {payload : Payload}

theorem lastStore_eq_some {time : Nat}
    (hlast : lastStore name qtype events = some (payload, time)) :
    time ∈ times events ∧ ∃ domain, Storable domain qtype payload.ips ∧ lower domain = name := by
  induction events using reverseRecOn with
  | nil => cases hlast
  | append_singleton events event ih =>
    have hold (h : lastStore name qtype events = some (payload, time)) :
        time ∈ times (events ++ [event]) ∧
          ∃ domain, Storable domain qtype payload.ips ∧ lower domain = name := by
      rw [times_concat]
      exact ⟨mem_append_left _ (ih h).1, (ih h).2⟩
    rw [lastStore_concat] at hlast
    obtain ⟨operation, evicted⟩ := event
    cases operation with
    | store domain qtype' stored at' scanUs =>
      simp only [Operation.remember] at hlast
      split at hlast
      case isTrue hstores =>
        cases hlast
        obtain ⟨hstorable, hname, rfl⟩ := hstores
        exact ⟨by simp [times, Operation.time?], domain, hstorable, hname⟩
      case isFalse => exact hold hlast
    | lookup => exact hold hlast
    | erase =>
      simp only [Operation.remember] at hlast
      split at hlast
      · cases hlast
      · exact hold hlast
    | clear => cases hlast

/-! ## What a record stands for -/

/-- The texts are the addresses of a store, as many as there is room for, in the form `ntop` gives
them. Nothing is said about the place of a text that is no address. -/
def Normalised (inet : Inet) (qtype : UInt16) (ips texts : List Bytes) : Prop :=
  if qtype = kTypeA then
    List.Forall₂ (fun ip text ↦ ∀ address, inet.pton4 (cString ip) = some address →
      text = inet.ntop4 address) (ips.take kMaxA) texts
  else
    List.Forall₂ (fun ip text ↦ ∀ address, inet.pton6 (cString ip) = some address →
      text = inet.ntop6 address) (ips.take kMaxAaaa) texts

theorem Normalised.eq_nil {ips texts : List Bytes} (hnormal : Normalised inet qtype ips texts)
    (htexts : texts = []) : ips = [] := by
  subst htexts
  unfold Normalised at hnormal
  split at hnormal
  all_goals
    rw [forall₂_nil_right_iff, take_eq_nil_iff] at hnormal
    exact hnormal.resolve_left (by decide)

theorem fillAddresses_forall₂ {Address : Type} {room : Nat} (pton : Bytes → Option Address)
    (ntop : Address → Bytes) (old : Vector Address room) (ips : List Bytes) :
    List.Forall₂ (fun ip text ↦ ∀ address, pton (cString ip) = some address → text = ntop address)
      (ips.take room)
      (((fillAddresses pton old ips).toList.take (addressCount room ips)).map ntop) := by
  apply forall₂_iff_get.mpr
  refine ⟨by simp [addressCount, Nat.min_comm], fun i hip htext address haddress ↦ ?_⟩
  simp only [get_eq_getElem, getElem_take] at haddress
  have hlength : i < ips.length := by
    simp only [length_take] at hip
    omega
  simp [fillAddresses, hlength, haddress]

theorem written_normalised (node : Node) (payload : Payload) (now : UInt32)
    (hqtype : node.qtype = kTypeA ∨ node.qtype = kTypeAaaa) :
    Normalised inet node.qtype payload.ips ((node.written inet payload now).texts inet) := by
  rcases hqtype with hqtype | hqtype
  · simp only [Normalised, Node.texts, Node.written, Node.withAddresses, hqtype, if_true]
    exact fillAddresses_forall₂ inet.pton4 inet.ntop4 node.a4 payload.ips
  · have hne : kTypeAaaa ≠ kTypeA := by decide
    simp only [Normalised, Node.texts, Node.written, Node.withAddresses, hqtype, hne, if_false, if_true]
    exact fillAddresses_forall₂ inet.pton6 inet.ntop6 node.a6 payload.ips

structure StandsFor (inet : Inet) (node : Node) (payload : Payload) (time : Nat) : Prop where
  ttl : node.ttl = payload.ttl
  storedMs : node.storedMs = nowMs time
  texts : Normalised inet node.qtype payload.ips (node.texts inet)

/-- A record stored at one time is past its lifetime at another. -/
def ExpiredAt (ttl : UInt32) (stored time : Nat) : Prop := ttl ≠ 0 ∧ ttl.toNat ≤ (time - stored) / 1000

theorem ExpiredAt.mono {ttl : UInt32} {stored time later : Nat} (hexpired : ExpiredAt ttl stored time)
    (hlater : time ≤ later) : ExpiredAt ttl stored later :=
  ⟨hexpired.1, hexpired.2.trans (Nat.div_le_div_right (Nat.sub_le_sub_right hlater stored))⟩

/-- Two readings of the clock in order, less than one turn of it apart. -/
def InOrder (earlier later : Nat) : Prop := earlier ≤ later ∧ later < earlier + 0x100000000

theorem elapsedMs_nowMs {stored time : Nat} (horder : InOrder stored time) :
    (elapsedMs (nowMs time) (nowMs stored)).toNat = time - stored := by
  obtain ⟨hle, hlt⟩ := horder
  simp only [elapsedMs, nowMs, UInt32.toNat_sub, UInt32.toNat_ofNat']
  omega

theorem StandsFor.expired_iff {node : Node} {stored time : Nat}
    (hstands : StandsFor inet node payload stored) (horder : InOrder stored time) :
    node.expired (nowMs time) ↔ ExpiredAt payload.ttl stored time := by
  have helapsed := elapsedMs_nowMs horder
  simp only [Node.expired, ExpiredAt, hstands.ttl, hstands.storedMs, Bool.and_eq_true, bne_iff_ne,
    decide_eq_true_eq, UInt32.le_iff_toNat_le, UInt32.toNat_div, helapsed]
  rfl

/-! ## Agreement -/

/-- What the cache holds under a key agrees with what is remembered of it. -/
structure Agrees (inet : Inet) (ignoreTtl : Bool) (name : Bytes) (qtype : UInt16)
    (events : List Event) (arena : Arena) : Prop where
  wellFormed : WellFormed arena
  present : ∀ node, arena.recordOf (cString name, qtype) = some node →
    ∃ payload time, lastStore name qtype events = some (payload, time) ∧ StandsFor inet node payload time
  absent : arena.recordOf (cString name, qtype) = none →
    lastStore name qtype events = none ∨ evictedSince name qtype events = true ∨
      (ignoreTtl = false ∧ ∃ payload stored, ∃ time ∈ times events,
        lastStore name qtype events = some (payload, stored) ∧ ExpiredAt payload.ttl stored time)

theorem Agrees.of_present {node : Node}
    {time : Nat} (hwell : WellFormed arena)
    (hrecord : arena.recordOf (cString name, qtype) = some node)
    (hlast : lastStore name qtype events = some (payload, time))
    (hstands : StandsFor inet node payload time) :
    Agrees inet ignoreTtl name qtype events arena := by
  refine ⟨hwell, ?_, ?_⟩
  · intro found hfound
    obtain rfl := mem_unique hrecord hfound
    exact ⟨payload, time, hlast, hstands⟩
  · intro hnone
    rw [hrecord] at hnone
    cases hnone

theorem Agrees.of_absent (hwell : WellFormed arena)
    (hrecord : arena.recordOf (cString name, qtype) = none)
    (hwhy : lastStore name qtype events = none ∨ evictedSince name qtype events ∨
      (ignoreTtl = false ∧ ∃ payload stored, ∃ time ∈ times events,
        lastStore name qtype events = some (payload, stored) ∧ ExpiredAt payload.ttl stored time)) :
    Agrees inet ignoreTtl name qtype events arena := by
  refine ⟨hwell, ?_, fun _ ↦ hwhy⟩
  intro node hnode
  rw [hrecord] at hnode
  cases hnode

variable {event : Event}

theorem Agrees.untouched (hagrees : Agrees inet ignoreTtl name qtype events arena) (hwell : WellFormed arena')
    (hrecord : arena'.recordOf (cString name, qtype) = arena.recordOf (cString name, qtype))
    (hlast : event.operation.remember name qtype (lastStore name qtype events) =
      lastStore name qtype events)
    (hstores : ¬ event.operation.Stores name qtype) :
    Agrees inet ignoreTtl name qtype (events ++ [event]) arena' := by
  refine ⟨hwell, ?_, ?_⟩
  · rw [hrecord, lastStore_concat, hlast]
    exact hagrees.present
  · rw [hrecord, lastStore_concat, hlast, evictedSince_concat, if_neg hstores]
    intro hnone
    rcases hagrees.absent hnone with hlast | hevicted | ⟨hignore, payload, stored, time, htime, h⟩
    · exact .inl hlast
    · exact .inr (.inl (by rw [hevicted, Bool.true_or]))
    · refine .inr (.inr ⟨hignore, payload, stored, time, ?_, h⟩)
      rw [times_concat]
      exact mem_append_left _ htime

theorem Stored.standsFor {time index : Nat} {old : Node}
    (hstored : Stored arena arena' inet (keyName domain, qtype) payload (nowMs time) index old)
    (hstorable : Storable domain qtype payload.ips) :
    StandsFor inet (old.written inet payload (nowMs time)).record payload time := by
  have hfields := sameButAddresses_withAddresses
    { old with storedMs := nowMs time, ttl := payload.ttl } inet payload.ips
  have hqtype : old.qtype = qtype := congrArg Prod.snd hstored.key_eq
  constructor
  case ttl => exact hfields.ttl
  case storedMs => exact hfields.storedMs
  case texts =>
    have hsame : (old.written inet payload (nowMs time)).record.qtype = old.qtype := hfields.qtype
    rw [hsame]
    exact written_normalised old payload (nowMs time) (hqtype ▸ hstorable.qtype_eq)

section

variable (hagrees : Agrees inet ignoreTtl name qtype events arena)
include hagrees

theorem Agrees.store {time scanUs index : Nat} {old : Node}
    {qtype' : UInt16}
    (hoperation : event.operation = .store domain qtype' payload time scanUs)
    (hevicted : event.evicted = arena.evictedKey event.operation)
    (hstorable : Storable domain qtype' payload.ips)
    (hstored : Stored arena arena' inet (keyName domain, qtype') payload (nowMs time) index old)
    (hname : keyName domain = cString name → lower domain = name) :
    Agrees inet ignoreTtl name qtype (events ++ [event]) arena' := by
  by_cases hkey : (cString name, qtype) = (keyName domain, qtype')
  · -- the store is the most recent one for the key
    obtain ⟨hsame, rfl⟩ := Prod.mk.inj hkey
    have hstores : event.operation.Stores name qtype := by
      rw [hoperation]
      exact ⟨hstorable, hname hsame.symm, rfl⟩
    have hlast : lastStore name qtype (events ++ [event]) = some (payload, time) := by
      rw [lastStore_concat]
      rw [hoperation] at hstores ⊢
      rw [Operation.remember, if_pos hstores]
    have hrecord := hkey ▸ hstored.recordOf_self
    exact .of_present hstored.change.wellFormed hrecord hlast (hstored.standsFor hstorable)
  · have hstores : ¬ event.operation.Stores name qtype := by
      rw [hoperation]
      rintro ⟨-, rfl, rfl⟩
      exact hkey rfl
    have hremember : event.operation.remember name qtype (lastStore name qtype events) =
        lastStore name qtype events := by
      rw [hoperation] at hstores ⊢
      rw [Operation.remember, if_neg hstores]
    have hrecord := hstored.recordOf_other hagrees.wellFormed hkey
    rw [hoperation, Arena.evictedKey, if_pos hstorable] at hevicted
    rw [← hevicted, withoutKey] at hrecord
    by_cases hgone : event.evicted = some (cString name, qtype)
    · rw [if_pos hgone] at hrecord
      have hevictedSince : evictedSince name qtype (events ++ [event]) := by
        rw [evictedSince_concat, if_neg hstores, hgone]
        simp
      exact .of_absent hstored.change.wellFormed hrecord (.inr (.inl hevictedSince))
    · rw [if_neg hgone] at hrecord
      exact hagrees.untouched hstored.change.wellFormed hrecord hremember hstores

theorem Agrees.lookup {time waitUs : Nat} {result : Option (List Bytes × UInt32)}
    {qtype' : UInt16}
    (hoperation : event.operation = .lookup domain qtype' time waitUs)
    (hlookup : LookedUp arena inet ignoreTtl (keyName domain, qtype') (nowMs time) arena' result)
    (htimes : ∀ earlier ∈ times events, InOrder earlier time) :
    Agrees inet ignoreTtl name qtype (events ++ [event]) arena' := by
  have hstores : ¬ event.operation.Stores name qtype := by
    rw [hoperation]
    exact not_false
  have hremember : event.operation.remember name qtype (lastStore name qtype events) =
      lastStore name qtype events := by
    rw [hoperation, Operation.remember]
  cases hlookup with
  | absent _ hchange | blank _ _ _ hchange =>
    have hrecord := hchange.recordOf_unchanged hagrees.wellFormed (cString name, qtype)
    exact hagrees.untouched hchange.wellFormed hrecord hremember hstores
  | expired hchained hkey hignore hexpired hchange =>
    have hrecord := hchange.recordOf_dropped hagrees.wellFormed hchained (cString name, qtype)
    rw [hkey] at hrecord
    by_cases hgone : (keyName domain, qtype') = (cString name, qtype)
    · rw [if_pos hgone] at hrecord
      have hnode := hagrees.wellFormed.recordOf_chained hchained
      rw [hkey, hgone] at hnode
      obtain ⟨payload, stored, hlast, hstands⟩ := hagrees.present _ hnode
      have horder : InOrder stored time := htimes stored (lastStore_eq_some hlast).1
      refine .of_absent hchange.wellFormed hrecord
        (.inr (.inr ⟨hignore, payload, stored, time, ?_, ?_, ?_⟩))
      · simp [times_concat, hoperation, Operation.time?]
      · rw [lastStore_concat, hremember, hlast]
      · exact (hstands.expired_iff horder).mp hexpired
    · rw [if_neg hgone] at hrecord
      exact hagrees.untouched hchange.wellFormed hrecord hremember hstores
  | @hit index hchained hkey _ _ hchange hnode =>
    have hkey' : (arena'.nodes index).key = (keyName domain, qtype') := by
      rw [hnode, ← hkey]
      rfl
    by_cases hsameKey : (keyName domain, qtype') = (cString name, qtype)
    · -- the use is counted, which does not touch what the record stands for
      have hrecord' := hchange.recordOf_written
      rw [hkey', hsameKey] at hrecord'
      have hrecord := hagrees.wellFormed.recordOf_chained hchained
      rw [hkey, hsameKey] at hrecord
      obtain ⟨payload, stored, hlast, hstands⟩ := hagrees.present _ hrecord
      have hlast' : lastStore name qtype (events ++ [event]) = some (payload, stored) := by
        rw [lastStore_concat, hremember, hlast]
      refine .of_present hchange.wellFormed hrecord' hlast' ?_
      rw [hnode]
      exact ⟨hstands.ttl, hstands.storedMs, hstands.texts⟩
    · rw [← hkey'] at hsameKey
      have hrecord := hchange.recordOf_rewritten hagrees.wellFormed hsameKey
      exact hagrees.untouched hchange.wellFormed hrecord hremember hstores

theorem Agrees.erase {found : Bool}
    {qtype' : UInt16}
    (hoperation : event.operation = .erase domain qtype')
    (herase : arena.erase domain qtype' = some (arena', found))
    (hname : keyName domain = cString name → lower domain = name) :
    Agrees inet ignoreTtl name qtype (events ++ [event]) arena' := by
  have hstores : ¬ event.operation.Stores name qtype := by
    rw [hoperation]
    exact not_false
  obtain ⟨erased, found', herased, hcases⟩ := hagrees.wellFormed.erase domain qtype'
  obtain ⟨rfl, rfl⟩ := Prod.mk.inj (mem_unique herased herase)
  have hwell : WellFormed erased := by
    rcases hcases with ⟨-, index, -, -, hchange⟩ | ⟨-, rfl, -⟩
    · exact hchange.wellFormed
    · exact hagrees.wellFormed
  by_cases hkey : (keyName domain, qtype') = (cString name, qtype)
  · obtain ⟨hsame, rfl⟩ := Prod.mk.inj hkey
    have hforgotten : lastStore name qtype' (events ++ [event]) = none := by
      rw [lastStore_concat, hoperation, Operation.remember, if_pos ⟨hname hsame, rfl⟩]
    refine .of_absent hwell ?_ (.inl hforgotten)
    rcases hcases with ⟨-, index, hchained, hindex, hchange⟩ | ⟨-, rfl, rfl | hnone⟩
    · rw [hchange.recordOf_dropped hagrees.wellFormed hchained, hindex, if_pos hkey]
    · -- nothing is ever stored for the empty name
      by_contra hsome
      obtain ⟨node, hnode⟩ := ne_none_iff_exists'.mp hsome
      obtain ⟨payload, time, hlast, -⟩ := hagrees.present node hnode
      obtain ⟨-, other, hstorable, hother⟩ := lastStore_eq_some hlast
      rw [← hname hsame] at hother
      exact hstorable.domain_ne_nil (map_eq_nil_iff.mp hother)
    · rw [← hkey, hnone]
  · have hremember : event.operation.remember name qtype (lastStore name qtype events) =
        lastStore name qtype events := by
      rw [hoperation, Operation.remember, if_neg]
      rintro ⟨rfl, rfl⟩
      exact hkey rfl
    apply hagrees.untouched hwell ?_ hremember hstores
    rcases hcases with ⟨-, index, hchained, hindex, hchange⟩ | ⟨-, rfl, -⟩
    · rw [hchange.recordOf_dropped hagrees.wellFormed hchained, hindex, if_neg hkey]
    · rfl

theorem Agrees.step (hstep : Step inet ignoreTtl arena event arena')
    (hnames : ∀ domain ∈ event.operation.domain?, keyName domain = cString name → lower domain = name)
    (htimes : ∀ time ∈ event.operation.time?, ∀ earlier ∈ times events, InOrder earlier time) :
    Agrees inet ignoreTtl name qtype (events ++ [event]) arena' := by
  obtain ⟨⟨answer, hperform⟩, hevicted⟩ := hstep
  have hwell := hagrees.wellFormed
  cases hoperation : event.operation with
  | store domain qtype' payload time scanUs =>
    rw [hoperation] at hnames htimes
    have hname := hnames domain rfl
    by_cases hstorable : Storable domain qtype' payload.ips
    · obtain ⟨stored, index, old, hstore, hstored⟩ :=
        hwell.storeInternal hstorable inet (nowMs time) scanUs
      have hsame : stored = arena' := by
        simpa [hoperation, Arena.perform, hstore] using congrArg (Option.map Prod.fst) hperform
      exact hagrees.store hoperation hevicted hstorable (hsame ▸ hstored) hname
    · have hsame : arena = arena' := by
        simpa [hoperation, Arena.perform, storeInternal_not_storable hstorable] using
          congrArg (Option.map Prod.fst) hperform
      have hstores : ¬ event.operation.Stores name qtype := by
        rw [hoperation]
        exact fun h ↦ hstorable h.1
      apply hagrees.untouched (hsame ▸ hwell) (by rw [hsame]) ?_ hstores
      rw [hoperation] at hstores ⊢
      rw [Operation.remember, if_neg hstores]
  | lookup domain qtype' time waitUs =>
    rw [hoperation] at htimes
    by_cases hdomain : Unsearched domain
    · have hsame : arena = arena' := by
        simpa [hoperation, Arena.perform, lookup_unsearched hdomain] using
          congrArg (Option.map Prod.fst) hperform
      apply hagrees.untouched (hsame ▸ hwell) (by rw [hsame])
      · rw [hoperation, Operation.remember]
      · rw [hoperation]
        exact not_false
    · obtain ⟨looked, result, hlookup, hlooked⟩ :=
        hwell.lookup hdomain inet ignoreTtl qtype' (nowMs time) waitUs
      have hsame : looked = arena' := by
        simpa [hoperation, Arena.perform, hlookup] using congrArg (Option.map Prod.fst) hperform
      exact hagrees.lookup hoperation (hsame ▸ hlooked) (htimes time rfl)
  | erase domain qtype' =>
    rw [hoperation] at hnames
    obtain ⟨erased, found, herase, -⟩ := hwell.erase domain qtype'
    have hsame : erased = arena' := by
      simpa [hoperation, Arena.perform, herase] using congrArg (Option.map Prod.fst) hperform
    exact hagrees.erase hoperation (hsame ▸ herase) (hnames domain rfl)
  | clear =>
    have hsame : arena.clear = arena' := by
      simpa [hoperation, Arena.perform] using congrArg (Option.map Prod.fst) hperform
    have hforgotten : lastStore name qtype (events ++ [event]) = none := by
      rw [lastStore_concat, hoperation, Operation.remember]
    rw [← hsame]
    exact .of_absent hwell.clear.wellFormed (hwell.clear.recordOf _) (.inl hforgotten)

end

/-- A lookup's answer fits the operations before it: addresses are those of the most recent store
for the lower-cased name and the type, and a miss means that there is no such store, or that its
record was evicted since or is past its lifetime. -/
structure FitsHistory (inet : Inet) (ignoreTtl : Bool) (events : List Event) (domain : Bytes)
    (qtype : UInt16) (time : Nat) (result : Option (List Bytes × UInt32)) : Prop where
  hit : ∀ found ∈ result, ∃ payload stored,
    lastStore (lower domain) qtype events = some (payload, stored) ∧
      Normalised inet qtype payload.ips found.1
  miss : result = none → lastStore (lower domain) qtype events = none ∨
      evictedSince (lower domain) qtype events = true ∨
      (ignoreTtl = false ∧ ∃ payload stored,
        lastStore (lower domain) qtype events = some (payload, stored) ∧ ExpiredAt payload.ttl stored time)

theorem Agrees.answer {time : Nat} {result : Option (List Bytes × UInt32)}
    (hagrees : Agrees inet ignoreTtl (lower domain) qtype events arena)
    (hlookup : LookedUp arena inet ignoreTtl (keyName domain, qtype) (nowMs time) arena' result)
    (htimes : ∀ earlier ∈ times events, InOrder earlier time) :
    FitsHistory inet ignoreTtl events domain qtype time result := by
  have hpresent {index : Nat} (hchained : arena.Chained index)
      (hkey : (arena.nodes index).key = (keyName domain, qtype)) :
      ∃ payload stored, lastStore (lower domain) qtype events = some (payload, stored) ∧
        StandsFor inet (arena.nodes index).record payload stored :=
    hagrees.present _ (hkey ▸ hagrees.wellFormed.recordOf_chained hchained)
  cases hlookup with
  | absent hnone _ =>
    refine ⟨by simp, fun _ ↦ ?_⟩
    rcases hagrees.absent hnone with hlast | hevicted | ⟨hignore, payload, stored, purge, hpurge, h⟩
    · exact .inl hlast
    · exact .inr (.inl hevicted)
    · exact .inr (.inr ⟨hignore, payload, stored, h.1, h.2.mono (htimes purge hpurge).1⟩)
  | expired hchained hkey hignore hexpired _ =>
    obtain ⟨payload, stored, hlast, hstands⟩ := hpresent hchained hkey
    have horder : InOrder stored time := htimes stored (lastStore_eq_some hlast).1
    refine ⟨by simp, fun _ ↦ .inr (.inr ⟨hignore, payload, stored, hlast, ?_⟩)⟩
    exact (hstands.expired_iff horder).mp hexpired
  | @blank index hchained hkey hblank _ =>
    -- an accepted store has an address, and so has its record
    obtain ⟨payload, stored, hlast, hstands⟩ := hpresent hchained hkey
    obtain ⟨-, other, hstorable, -⟩ := lastStore_eq_some hlast
    exact absurd (hstands.texts.eq_nil hblank) hstorable.ips_ne_nil
  | @hit index hchained hkey _ _ _ _ =>
    obtain ⟨payload, stored, hlast, hstands⟩ := hpresent hchained hkey
    have hqtype : (arena.nodes index).qtype = qtype := congrArg Prod.snd hkey
    refine ⟨?_, by simp⟩
    rintro _ ⟨rfl⟩
    exact ⟨payload, stored, hlast, hqtype ▸ hstands.texts⟩

theorem exists_run (hwell : WellFormed arena) (inet : Inet) (ignoreTtl : Bool)
    (operations : List Operation) :
    ∃ events arena', events.map Event.operation = operations ∧
      Run (Step inet ignoreTtl) arena events arena' := by
  induction operations generalizing arena with
  | nil => exact ⟨[], arena, rfl, .nil arena⟩
  | cons operation operations ih =>
    obtain ⟨middle, answer, hperform, heffect⟩ := hwell.perform inet ignoreTtl operation
    obtain ⟨events, arena', hoperations, hrun⟩ := ih (heffect.wellFormed hwell)
    refine ⟨⟨operation, arena.evictedKey operation⟩ :: events, arena', ?_, .cons ?_ hrun⟩
    · rw [map_cons, hoperations]
    · exact ⟨⟨answer, hperform⟩, rfl⟩

/-- Agreement over a whole run, for a name that shares its key with no other name of the run. -/
theorem agrees_of_run (hvacant : Vacant arena)
    (hrun : Run (Step inet ignoreTtl) arena events arena')
    (hnames : ∀ event ∈ events, ∀ domain ∈ event.operation.domain?,
      keyName domain = cString name → lower domain = name)
    (htimes : (times events).Pairwise InOrder) :
    Agrees inet ignoreTtl name qtype events arena' := by
  let Good (before : List Event) : Prop :=
    (∀ event ∈ before, ∀ domain ∈ event.operation.domain?,
      keyName domain = cString name → lower domain = name) ∧ (times before).Pairwise InOrder
  let Inv (before : List Event) (state : Arena) : Prop :=
    Good before → Agrees inet ignoreTtl name qtype before state
  have hfirst : Inv [] arena := by
    intro _
    refine ⟨hvacant.wellFormed, ?_, fun _ ↦ .inl rfl⟩
    intro node hnode
    rw [hvacant.recordOf] at hnode
    cases hnode
  have hkeep : ∀ before event state state', Inv before state →
      Step inet ignoreTtl state event state' → Inv (before ++ [event]) state' := by
    intro before event state state' hbefore hstep ⟨hnames, htimes⟩
    rw [times_concat, pairwise_append] at htimes
    have hagrees := hbefore
      ⟨fun other hother ↦ hnames other (mem_append_left _ hother), htimes.1⟩
    apply hagrees.step hstep
    · exact hnames event (by simp)
    · intro time htime earlier hearlier
      exact htimes.2.2 earlier hearlier time (by simpa using htime)
  have hlast : Inv ([] ++ events) arena' := hrun.history hkeep hfirst
  exact hlast ⟨hnames, htimes⟩

/-- A lookup after any operations on a new cache. Only stores that are accepted count, and the name
must not agree with another one just up to a zero byte. -/
theorem lookup_fits_history (inet : Inet) (ignoreTtl : Bool) (sizeMb : Nat) {fresh : Arena}
    (hfresh : ((Cache.initial ignoreTtl).enable sizeMb true).arena = some fresh)
    (operations : List Operation) (domain : Bytes) (qtype : UInt16) (time waitUs : Nat)
    (htimes : (operations.filterMap Operation.time? ++ [time]).Pairwise InOrder)
    (hnames : ∀ other ∈ operations.filterMap Operation.domain?,
      keyName other = keyName domain → lower other = lower domain) :
    ∃ events arena, events.map Event.operation = operations ∧ Run (Step inet ignoreTtl) fresh events arena ∧
      ∃ arena' result,
        arena.lookup inet ignoreTtl domain qtype (nowMs time) waitUs = some (arena', result) ∧
        FitsHistory inet ignoreTtl events domain qtype time result := by
  have hvacant : Vacant fresh := vacant_of_enable hfresh
  obtain ⟨events, arena, hoperations, hrun⟩ := exists_run hvacant.wellFormed inet ignoreTtl operations
  refine ⟨events, arena, hoperations, hrun, ?_⟩
  have hall : times events = operations.filterMap Operation.time? := by
    rw [times, ← hoperations, filterMap_map]
    rfl
  rw [← hall, pairwise_append] at htimes
  have hagrees : Agrees inet ignoreTtl (lower domain) qtype events arena := by
    apply agrees_of_run hvacant hrun ?_ htimes.1
    intro event hevent other hother hkey
    apply hnames other ?_ hkey
    exact mem_filterMap.mpr ⟨event.operation, hoperations ▸ List.mem_map_of_mem hevent, hother⟩
  have hlater (earlier : Nat) (hearlier : earlier ∈ times events) : InOrder earlier time :=
    htimes.2.2 earlier hearlier time (by simp)
  by_cases hdomain : Unsearched domain
  · -- no store for such a name is accepted either
    refine ⟨arena, none, lookup_unsearched hdomain ignoreTtl (nowMs time) waitUs, by simp, ?_⟩
    refine fun _ ↦ .inl ?_
    cases hlast : lastStore (lower domain) qtype events with
    | none => rfl
    | some stored =>
      obtain ⟨-, other, hstorable, hother⟩ := lastStore_eq_some hlast
      exfalso
      rcases hdomain with rfl | hlong
      · exact hstorable.domain_ne_nil (map_eq_nil_iff.mp hother)
      · rw [← hother] at hlong
        exact absurd hstorable.length_lt (not_lt.mpr hlong)
  · obtain ⟨arena', result, hlookup, hlooked⟩ :=
      hagrees.wellFormed.lookup hdomain inet ignoreTtl qtype (nowMs time) waitUs
    refine ⟨arena', result, hlookup, ?_⟩
    exact hagrees.answer hlooked hlater

def sampleText : Bytes := [0x31, 0x2E, 0x32, 0x2E, 0x33, 0x2E, 0x34]

def sampleAddress : V4 := #v[1, 2, 3, 4]

def letters (byte : UInt8) : Bytes :=
  [UInt8.ofNat (byte.toNat / 16 + 97), UInt8.ofNat (byte.toNat % 16 + 97)]

def unletters : Bytes → Bytes
  | high :: low :: rest => UInt8.ofNat ((high.toNat - 97) * 16 + (low.toNat - 97)) :: unletters rest
  | _ => []

/-- One address in its usual text, every other one in letters. -/
def sampleInet : Inet where
  pton4 text := if text = sampleText then some sampleAddress
    else some (CacheFile.rawAddress 4 (unletters text))
  ntop4 address := if address = sampleAddress then sampleText else address.toList.flatMap letters
  pton6 text := some (CacheFile.rawAddress 16 (unletters text))
  ntop6 address := address.toList.flatMap letters

/-- A lookup in capitals after a store in small letters. -/
theorem lookup_fits_history_capital : ∃ fresh, ((Cache.initial false).enable 1 true).arena = some fresh ∧
      ∃ events arena,
        events.map Event.operation = [.store [0x61] kTypeA ⟨[sampleText], 60, none⟩ 5 0] ∧
        Run (Step sampleInet false) fresh events arena ∧
        ∃ arena' result,
          arena.lookup sampleInet false [0x41] kTypeA (nowMs 1005) 0 = some (arena', result) ∧
          FitsHistory sampleInet false events [0x41] kTypeA 1005 result := by
  refine ⟨_, rfl, lookup_fits_history sampleInet false 1 rfl _ _ _ _ _ ?_ ?_⟩
  · simp [Operation.time?, InOrder]
  · simp [Operation.domain?, lower, toLower]

/-- A record that never expires is not found right after its store: its type is neither of the two
that are kept. -/
theorem lookup_fails_after_store : ∃ cache,
      steps (Cache.step sampleInet) (Cache.initial false)
        [.enable 1 true, .operate (.store [0x61] 16 ⟨[sampleText], 0, none⟩ 5 0)] = some cache ∧
      (cache.perform sampleInet (.operate (.lookup [0x61] 16 5 0))).map Prod.snd =
        some (.found none) :=
  ⟨_, rfl, rfl⟩

end DhcpServer.Dns.InternalCache
