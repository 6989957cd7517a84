import DhcpServer.Dhcp.HoldDown
import Mathlib.Data.Set.Card

/-!
# The table of refusals as a map

Seen from outside, the table is a map from an address to the time it was last refused at. It has room for
`kCapacity` addresses, so of the map it keeps the youngest refusals, and of those the ones of the last
hour count.
-/

namespace DhcpServer.Dhcp.DeclinedAddresses

open Library List

inductive Operation
  | add (ip : UInt32) (nowMs : UInt64)
  | expire (nowMs : UInt64)
  | clear

def Operation.timeMs : Operation → Option Nat
  | add _ nowMs => some nowMs.toNat
  | expire nowMs => some nowMs.toNat
  | clear => none

/-- What an operation does to the times of the last refusals. -/
def Operation.remember (last : UInt32 → Option Nat) : Operation → UInt32 → Option Nat
  | add ip nowMs => fun other ↦ if other = ip then some nowMs.toNat else last other
  | expire _ => last
  | clear => fun _ ↦ none

/-- The time every address was refused at last, since the last `clear`. -/
def lastRefusal (operations : List Operation) : UInt32 → Option Nat :=
  operations.foldl Operation.remember fun _ ↦ none

def othersSince (last : UInt32 → Option Nat) (ip : UInt32) (since : Nat) : Set UInt32 :=
  {other | other ≠ ip ∧ ∃ later, last other = some later ∧ since ≤ later}

structure Clocked where
  table : DeclinedAddresses
  clockMs : Nat

def Operation.perform (table : DeclinedAddresses) : Operation → DeclinedAddresses
  | add ip nowMs => (table.add ip nowMs.toNat).1
  | expire nowMs => table.expire nowMs.toNat
  | clear => table.clear

def Operates (state : Clocked) (operation : Operation) (state' : Clocked) : Prop :=
  let nowMs := operation.timeMs.getD state.clockMs
  state.clockMs ≤ nowMs ∧ state' = ⟨operation.perform state.table, nowMs⟩

/-- A refusal of the address takes the place of this one, which was still in force. -/
def Drops (table : DeclinedAddresses) (ip : UInt32) (nowMs : Nat) (entry : DeclinedEntry) : Prop :=
  entry ∈ table.entries ∧ entry.used ∧ ageMs nowMs entry.sinceMs < kDeclineHoldMs ∧
    ∀ left ∈ (table.add ip nowMs).1.entries, left.used → left.ip ≠ entry.ip

/-- Among the addresses refused lately, the table answers as the map does. -/
structure LikeMap (last : UInt32 → Option Nat) (table : DeclinedAddresses) (nowMs : Nat) : Prop where
  unique : ∀ (i j : Nat) (first second : DeclinedEntry), table.entries[i]? = some first →
    table.entries[j]? = some second → first.used → second.used → first.ip = second.ip → i = j
  held : ∀ ip since, last ip = some since → (othersSince last ip since).ncard < kCapacity →
    (table.isDeclined ip nowMs = true ↔ nowMs - since < kDeclineHoldMs)
  released : ∀ ip, table.isDeclined ip nowMs = true →
    ∃ since, last ip = some since ∧ nowMs - since < kDeclineHoldMs
  forgets : ∀ ip, (table.add ip nowMs).2 = false ↔ ∃ entry, Drops table ip nowMs entry
  oldest : ∀ ip entry, Drops table ip nowMs entry → ∀ other ∈ table.entries, other.used →
    entry.sinceMs ≤ other.sinceMs
  counted : table.count nowMs = {ip | table.isDeclined ip nowMs = true}.ncard

variable {table : DeclinedAddresses} {ip : UInt32} {nowMs nowMs' since : Nat} {entry : DeclinedEntry}
  {last : UInt32 → Option Nat} {state state' : Clocked} {operation : Operation}

instance : Finite UInt32 := Finite.of_injective UInt32.toFin fun _ _ hsame ↦ UInt32.toFin_inj.mp hsame

theorem ageMs_eq (hpast : since ≤ nowMs) (hword : nowMs < 2 ^ 64) : ageMs nowMs since = nowMs - since := by
  unfold ageMs
  omega

theorem Sound.isDeclined_iff (hsound : Sound table nowMs) :
    table.isDeclined ip nowMs' ↔ ∃ entry ∈ table.entries, entry.used ∧ entry.ip = ip ∧
      ageMs nowMs' entry.sinceMs < kDeclineHoldMs := by
  unfold isDeclined
  split
  · rename_i found hfind
    have hmatch := find?_some hfind
    simp only [Bool.and_eq_true, beq_iff_eq] at hmatch
    have hmem := mem_of_find?_eq_some hfind
    rw [decide_eq_true_iff]
    constructor
    · intro hforce
      exact ⟨found, hmem, hmatch.1, hmatch.2, hforce⟩
    · rintro ⟨entry, hentry, hused, hip, hforce⟩
      obtain ⟨i, hi⟩ := getElem?_of_mem hmem
      obtain ⟨j, hj⟩ := getElem?_of_mem hentry
      obtain rfl := hsound.distinct i j found entry hi hj hmatch.1 hused (hmatch.2.trans hip.symm)
      obtain rfl := Option.some.inj (hi.symm.trans hj)
      exact hforce
  · rename_i hnone
    constructor
    · intro hfalse
      cases hfalse
    · rintro ⟨entry, hentry, hused, hip, -⟩
      have hno := find?_eq_none.mp hnone entry hentry
      simp [hused, hip] at hno

theorem Sound.pairwise (hsound : Sound table nowMs) :
    table.entries.Pairwise fun first second ↦ first.used → second.used → first.ip ≠ second.ip := by
  rw [pairwise_iff_getElem]
  intro i j hi hj hlt hone htwo hip
  have hsame := hsound.distinct i j _ _ (getElem?_eq_getElem hi) (getElem?_eq_getElem hj)
    hone htwo hip
  omega

theorem Sound.count_eq (hsound : Sound table nowMs) :
    table.count nowMs' = {ip | table.isDeclined ip nowMs' = true}.ncard := by
  let inForce := table.entries.filter fun entry ↦
    entry.used && ageMs nowMs' entry.sinceMs < kDeclineHoldMs
  have hnodup : (inForce.map DeclinedEntry.ip).Nodup := by
    rw [List.Nodup, pairwise_map, pairwise_filter]
    apply hsound.pairwise.imp
    intro first second hdistinct hone htwo
    simp only [Bool.and_eq_true, decide_eq_true_eq] at hone htwo
    exact hdistinct hone.1 htwo.1
  have hset : {ip | table.isDeclined ip nowMs' = true} = ↑(inForce.map DeclinedEntry.ip).toFinset := by
    ext ip
    rw [Set.mem_ofPred_eq, hsound.isDeclined_iff, coe_toFinset, Set.mem_ofPred_eq, mem_map]
    constructor
    · rintro ⟨entry, hentry, hused, hip, hforce⟩
      exact ⟨entry, mem_filter.mpr ⟨hentry, by simp [hused, hforce]⟩, hip⟩
    · rintro ⟨entry, hentry, hip⟩
      obtain ⟨hmem, hmatch⟩ := mem_filter.mp hentry
      simp only [Bool.and_eq_true, decide_eq_true_eq] at hmatch
      exact ⟨entry, hmem, hmatch.1, hip, hmatch.2⟩
  rw [hset, Set.ncard_coe_finset, toFinset_card_of_nodup hnodup, length_map,
    DeclinedAddresses.count, countP_eq_length_filter]

theorem force_of_expire (hentry : entry ∈ (table.expire nowMs).entries) (hused : entry.used) :
    ageMs nowMs entry.sinceMs < kDeclineHoldMs := by
  obtain ⟨old, hold, rfl⟩ := mem_map.mp hentry
  split_ifs at hused ⊢ with hexpired
  by_contra hlate
  exact hexpired ⟨hused, Nat.not_lt.mp hlate⟩

theorem add_eq_false_iff : (table.add ip nowMs).2 = false ↔
      ∀ entry ∈ (table.expire nowMs).entries, entry.used ∧ entry.ip ≠ ip := by
  unfold DeclinedAddresses.add
  dsimp only
  split
  · rename_i i hown
    obtain ⟨hlt, hmatch, -⟩ := findIdx?_eq_some_iff_getElem.mp hown
    simp only [Bool.and_eq_true, beq_iff_eq] at hmatch
    exact iff_of_false (by simp) fun hall ↦ (hall _ (getElem_mem hlt)).2 hmatch.2
  · rename_i hother
    split
    · rename_i i hfree
      obtain ⟨hlt, hmatch, -⟩ := findIdx?_eq_some_iff_getElem.mp hfree
      refine iff_of_false (by simp) fun hall ↦ ?_
      simp [(hall _ (getElem_mem hlt)).1] at hmatch
    · rename_i hfull
      refine iff_of_true rfl fun entry hentry ↦ ?_
      have hused : entry.used := by simpa using findIdx?_eq_none_iff.mp hfull entry hentry
      have hno := findIdx?_eq_none_iff.mp hother entry hentry
      exact ⟨hused, by simpa [hused] using hno⟩

theorem Drops.oldest (hdrops : Drops table ip nowMs' entry) :
    (∀ other ∈ (table.expire nowMs').entries, other.used ∧ other.ip ≠ ip) ∧
      (table.expire nowMs').entries[oldest (table.expire nowMs').entries]? = some entry := by
  obtain ⟨hentry, hused, hforce, hgone⟩ := hdrops
  obtain ⟨j, hj⟩ := getElem?_of_mem hentry
  have hkept := getElem?_expire hj hforce
  obtain ⟨i, hslot, hentries⟩ := add_slot table ip nowMs'
  rw [hentries] at hgone
  have hlt : j < (table.expire nowMs').entries.length := (List.getElem?_eq_some_iff.mp hkept).1
  obtain rfl : i = j := by
    by_contra hne
    refine hgone entry (mem_of_getElem? (i := j) ?_) hused rfl
    rw [getElem?_set_ne hne, hkept]
  have hwritten : ip ≠ entry.ip := hgone ⟨ip, nowMs', true⟩ (mem_set hlt _) rfl
  cases hslot with
  | own mine hmine _ hmineIp =>
    obtain rfl := Option.some.inj (hkept.symm.trans hmine)
    exact absurd hmineIp.symm hwritten
  | free mine _ hmine hunused =>
    obtain rfl := Option.some.inj (hkept.symm.trans hmine)
    simp [hused] at hunused
  | full hnew hall =>
    exact ⟨fun other hother ↦ ⟨hall other hother, hnew other hother (hall other hother)⟩, hkept⟩

theorem Sound.forgets_iff (hsound : Sound table nowMs) :
    (table.add ip nowMs').2 = false ↔ ∃ entry, Drops table ip nowMs' entry := by
  constructor
  · intro hflag
    have hall := add_eq_false_iff.mp hflag
    have hexpired : Sound (table.expire nowMs') nowMs := hsound.expire
    obtain ⟨i, hslot, hentries⟩ := add_slot table ip nowMs'
    have hlt := hslot.lt (by rw [hexpired.length]; decide)
    have hget := getElem?_eq_getElem hlt
    have hmem := getElem_mem hlt
    obtain ⟨hused, hip⟩ := hall _ hmem
    refine ⟨_, mem_of_getElem? (getElem?_of_expire hget hused), hused, force_of_expire hmem hused, ?_⟩
    intro left hleft hleftUsed hsame
    rw [hentries] at hleft
    obtain ⟨j, hj⟩ := getElem?_of_mem hleft
    rw [getElem?_set] at hj
    split_ifs at hj with hplace
    · cases hj
      exact hip hsame.symm
    · exact hplace (hexpired.distinct i j _ _ hget hj hused hleftUsed hsame.symm)
  · rintro ⟨entry, hdrops⟩
    exact add_eq_false_iff.mpr hdrops.oldest.1

theorem Drops.le (hsound : Sound table nowMs) (hdrops : Drops table ip nowMs' entry)
    {other : DeclinedEntry} (hother : other ∈ table.entries) (hused : other.used) :
    entry.sinceMs ≤ other.sinceMs := by
  obtain ⟨hall, hentry⟩ := hdrops.oldest
  obtain ⟨j, hj⟩ := getElem?_of_mem hother
  -- nothing has expired, so the entry is in the table that is searched as well
  have hlt : j < (table.expire nowMs').entries.length := by
    rw [hsound.expire.length, ← hsound.length]
    exact (List.getElem?_eq_some_iff.mp hj).1
  have hget := getElem?_eq_getElem hlt
  have hold := getElem?_of_expire hget (hall _ (getElem_mem hlt)).1
  obtain rfl := Option.some.inj (hj.symm.trans hold)
  have hleast := (oldest_spec (Nat.zero_lt_of_lt hlt)).2 j hlt
  rwa [getD_eq_getElem?_getD, getD_eq_getElem?_getD, hentry, hget] at hleast

structure Refines (last : UInt32 → Option Nat) (state : Clocked) : Prop where
  sound : Sound state.table state.clockMs
  past : ∀ ip since, last ip = some since → since ≤ state.clockMs
  current : ∀ entry ∈ state.table.entries, entry.used → last entry.ip = some entry.sinceMs
  kept : ∀ ip since, last ip = some since → state.clockMs < since + kDeclineHoldMs →
    (othersSince last ip since).ncard < kCapacity → ∃ entry ∈ state.table.entries, entry.used ∧ entry.ip = ip

theorem refines_empty : Refines (fun _ ↦ none) ⟨empty, 0⟩ where
  sound := sound_empty
  past ip since hlast := by cases hlast
  current entry hentry hused := by
    rw [eq_of_mem_replicate hentry] at hused
    cases hused
  kept ip since hlast := by cases hlast

theorem Refines.expire (hrefines : Refines last ⟨table, nowMs⟩) (hle : nowMs ≤ nowMs') :
    Refines last ⟨table.expire nowMs', nowMs'⟩ where
  sound := hrefines.sound.expire.mono hle
  past ip since hlast := (hrefines.past ip since hlast).trans hle
  current entry hentry hused := by
    obtain ⟨i, hi⟩ := getElem?_of_mem hentry
    exact hrefines.current entry (mem_of_getElem? (getElem?_of_expire hi hused)) hused
  kept ip since hlast hearly hfew := by
    obtain ⟨entry, hentry, hused, rfl⟩ := hrefines.kept ip since hlast (lt_of_le_of_lt hle hearly) hfew
    obtain ⟨i, hi⟩ := getElem?_of_mem hentry
    obtain rfl := Option.some.inj (hlast.symm.trans (hrefines.current entry hentry hused))
    have hforce := ageMs_lt ((hrefines.past _ _ hlast).trans hle) le_rfl hearly
    exact ⟨entry, mem_of_getElem? (getElem?_expire hi hforce), hused, rfl⟩

theorem Refines.clear (hrefines : Refines last ⟨table, nowMs⟩) :
    Refines (fun _ ↦ none) ⟨table.clear, nowMs⟩ := by
  have hunused {entry : DeclinedEntry} (hentry : entry ∈ table.clear.entries) : ¬entry.used := by
    obtain ⟨old, -, rfl⟩ := mem_map.mp hentry
    exact Bool.false_ne_true
  refine ⟨⟨?_, ?_, ?_⟩, ?_, ?_, ?_⟩
  · exact length_map _ |>.trans hrefines.sound.length
  · intro i j first second hfirst _ hused
    exact absurd hused (hunused (mem_of_getElem? hfirst))
  · intro entry hentry hused
    exact absurd hused (hunused hentry)
  · intro ip since hlast
    cases hlast
  · intro entry hentry hused
    exact absurd hused (hunused hentry)
  · intro ip since hlast
    cases hlast

theorem othersSince_subset (last : UInt32 → Option Nat) (ip declined : UInt32) {time : UInt64}
    (hnow : since ≤ time.toNat) :
    othersSince last ip since ⊆ othersSince (Operation.remember last (.add declined time)) ip since := by
  rintro other ⟨hne, later, hlater, hle⟩
  refine ⟨hne, ?_⟩
  by_cases hsame : other = declined
  · exact ⟨time.toNat, if_pos hsame, hnow⟩
  · exact ⟨later, (if_neg hsame).trans hlater, hle⟩

theorem Refines.held {others : Set UInt32} (hrefines : Refines last ⟨table, nowMs⟩)
    (hothers : othersSince last ip since ⊆ others) (hlast : last ip = some since)
    (hentry : ∃ entry ∈ table.entries, entry.used ∧ entry.ip = ip) :
    Held table ip since (Set.toFinite others).toFinset := by
  obtain ⟨entry, hmem, hused, rfl⟩ := hentry
  obtain ⟨i, hi⟩ := getElem?_of_mem hmem
  obtain rfl := Option.some.inj (hlast.symm.trans (hrefines.current entry hmem hused))
  refine ⟨⟨i, entry, hi, hused, rfl, le_rfl⟩, fun other hother hotherUsed hsince hne ↦ ?_⟩
  rw [Set.Finite.mem_toFinset]
  exact hothers ⟨hne, other.sinceMs, hrefines.current other hother hotherUsed, hsince⟩

theorem Refines.add {declined : UInt32} {time : UInt64} (hrefines : Refines last ⟨table, nowMs⟩)
    (hle : nowMs ≤ time.toNat) :
    Refines (Operation.remember last (.add declined time))
      ⟨(table.add declined time.toNat).1, time.toNat⟩ := by
  obtain ⟨place, hslot, hentries⟩ := add_slot table declined time.toNat
  have hexpired : Sound (table.expire time.toNat) nowMs := hrefines.sound.expire
  refine ⟨hrefines.sound.add hle, ?_, ?_, ?_⟩
  · intro ip since hlast
    simp only [Operation.remember] at hlast
    split_ifs at hlast
    · exact (Option.some.inj hlast).symm.le
    · exact (hrefines.past ip since hlast).trans hle
  · intro entry hentry hused
    rw [hentries] at hentry
    obtain ⟨i, hi⟩ := getElem?_of_mem hentry
    rw [getElem?_set] at hi
    split_ifs at hi with hplace
    · cases hi
      exact if_pos rfl
    · have hother : entry.ip ≠ declined := fun hip ↦
        hplace (hslot.other hexpired.distinct hi hused hip)
      have hold := mem_of_getElem? (getElem?_of_expire hi hused)
      exact (if_neg hother).trans (hrefines.current entry hold hused)
  · intro ip since hlast hearly hfew
    by_cases hsame : ip = declined
    · have hlt := hslot.lt (by rw [hexpired.length]; decide)
      refine ⟨⟨declined, time.toNat, true⟩, ?_, rfl, hsame.symm⟩
      rw [hentries]
      exact mem_set hlt _
    · simp only [Operation.remember, if_neg hsame] at hlast
      have hsubset := othersSince_subset last ip declined ((hrefines.past ip since hlast).trans hle)
      have hbefore := hrefines.kept ip since hlast (lt_of_le_of_lt hle hearly)
        (lt_of_le_of_lt (Set.ncard_le_ncard hsubset) hfew)
      have hheld := hrefines.held hsubset hlast hbefore
      rw [Set.ncard_eq_toFinset_card] at hfew
      have hafter : Held (table.add declined time.toNat).1 ip since _ :=
        hheld.add hrefines.sound hle hearly hfew fun hne ↦ ?_
      · obtain ⟨i, entry, hi, hused, hip, -⟩ := hafter.entry
        exact ⟨entry, mem_of_getElem? hi, hused, hip⟩
      · rw [Set.Finite.mem_toFinset]
        exact ⟨hne, time.toNat, if_pos rfl, (hrefines.past ip since hlast).trans hle⟩

theorem Refines.step (hrefines : Refines last state) (hoperates : Operates state operation state') :
    Refines (operation.remember last) state' := by
  obtain ⟨hle, rfl⟩ := hoperates
  cases operation with
  | add declined time => exact hrefines.add hle
  | expire time => exact hrefines.expire hle
  | clear => exact hrefines.clear

theorem refines_of_run {operations : List Operation}
    (hrun : Run Operates ⟨empty, 0⟩ operations state) : Refines (lastRefusal operations) state := by
  have hkeep (before : List Operation) (operation : Operation) (state state' : Clocked)
      (hrefines : Refines (lastRefusal before) state) (hoperates : Operates state operation state') :
      Refines (lastRefusal (before ++ [operation])) state' := by
    rw [lastRefusal, foldl_append]
    exact hrefines.step hoperates
  have hstart : Refines (lastRefusal []) ⟨empty, 0⟩ := refines_empty
  exact hrun.history hkeep hstart

theorem Refines.likeMap (hrefines : Refines last state) (hle : state.clockMs ≤ nowMs)
    (hword : nowMs < 2 ^ 64) : LikeMap last state.table nowMs := by
  have hsound := hrefines.sound
  have hage {entry : DeclinedEntry} (hentry : entry ∈ state.table.entries) (hused : entry.used) :
      ageMs nowMs entry.sinceMs = nowMs - entry.sinceMs :=
    ageMs_eq ((hsound.past entry hentry hused).trans hle) hword
  refine ⟨hsound.distinct, ?_, ?_, fun ip ↦ hsound.forgets_iff, fun ip entry hdrops other ↦ hdrops.le hsound,
    hsound.count_eq⟩
  · intro ip since hlast hfew
    rw [hsound.isDeclined_iff]
    constructor
    · rintro ⟨entry, hentry, hused, rfl, hforce⟩
      obtain rfl := Option.some.inj (hlast.symm.trans (hrefines.current entry hentry hused))
      rwa [hage hentry hused] at hforce
    · intro hforce
      have hpast := hrefines.past ip since hlast
      obtain ⟨entry, hentry, hused, rfl⟩ := hrefines.kept ip since hlast (by omega) hfew
      obtain rfl := Option.some.inj (hlast.symm.trans (hrefines.current entry hentry hused))
      exact ⟨entry, hentry, hused, rfl, (hage hentry hused).trans_lt hforce⟩
  · intro ip hdeclined
    obtain ⟨entry, hentry, hused, rfl, hforce⟩ := hsound.isDeclined_iff.mp hdeclined
    exact ⟨entry.sinceMs, hrefines.current entry hentry hused, (hage hentry hused).symm.trans_lt hforce⟩

/-- After every sequence of calls the table of refusals answers like the map of the last refusals. -/
theorem declined_addresses_are_a_map {operations : List Operation} {now : UInt64}
    (hrun : Run Operates ⟨empty, 0⟩ operations state) (hnow : state.clockMs ≤ now.toNat) :
    LikeMap (lastRefusal operations) state.table now.toNat :=
  (refines_of_run hrun).likeMap hnow now.toNat_lt

/-- An address refused at 5 s is asked for at 6 s. -/
theorem declined_addresses_are_a_map_once : ∃ state, Run Operates ⟨empty, 0⟩ [.add 1 5000] state ∧
      LikeMap (lastRefusal [.add 1 5000]) state.table 6000 := by
  have hrun : Run Operates ⟨empty, 0⟩ [.add 1 5000] ⟨(empty.add 1 5000).1, 5000⟩ :=
    .cons ⟨Nat.zero_le _, rfl⟩ (.nil _)
  have hnow : 5000 ≤ (6000 : UInt64).toNat := by decide
  exact ⟨_, hrun, declined_addresses_are_a_map hrun hnow⟩

end DhcpServer.Dhcp.DeclinedAddresses
