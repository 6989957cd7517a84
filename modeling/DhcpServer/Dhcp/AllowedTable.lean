import DhcpServer.Dhcp.AllowedText
import DhcpServer.Library.ProbeTable

/-!
# The table of the allow-list

`DhcpAllowedList` fills one half of its memory while the packet path reads the other one, and then
turns to the new half. What the reader finds there are the first addresses of the list, each once and
at most `kMaxEntries` of them, whatever the halves held before.
-/

namespace DhcpServer.Dhcp.AllowedList

open Library List Option Function

structure DhcpAllowedList where
  slots : Option (Fin 2 → Nat → Slot) := none
  active : Fin 2 := ⟨0, Nat.zero_lt_two⟩
  count : Nat := 0

namespace DhcpAllowedList

def table (list : DhcpAllowedList) : Table := ⟨list.slots.map fun halves ↦ halves list.active⟩

def available (list : DhcpAllowedList) : Bool := list.slots.isSome

def contains (list : DhcpAllowedList) (mac : Mac) : Bool := list.table.contains mac

end DhcpAllowedList

def clearTable : Nat → Slot := fun _ ↦ ⟨Vector.replicate 6 0, false⟩

def freeSlotFrom (slots : Nat → Slot) (mac : Mac) : (probes idx : Nat) → Option Nat
  | 0, _ => none
  | probes + 1, idx =>
    if !(slots idx).used then some idx
    else if (slots idx).mac = mac then none
    else freeSlotFrom slots mac probes ((idx + 1) % kSlots)

/-- `none` is a duplicate or a full table. -/
def freeSlot (slots : Nat → Slot) (mac : Mac) : Option Nat :=
  freeSlotFrom slots mac kSlots ((hashMac mac).toNat % kSlots)

/-- `storage` is whether there is memory. -/
def DhcpAllowedList.init (list : DhcpAllowedList) (storage : Bool) : DhcpAllowedList × Bool :=
  if !storage then (list, false) else ({ slots := some fun _ ↦ clearTable }, true)

structure Filling where
  dest : Nat → Slot
  inserted : Nat := 0
  dropped : Nat := 0

def Filling.drop (filling : Filling) : Filling := { filling with dropped := filling.dropped + 1 }

def Filling.next (filling : Filling) (entry : AllowedComputer) : Filling :=
  if !entry.enabled then filling
  else
    match parseMac entry.mac with
    | none => filling.drop
    | some mac =>
      if kMaxEntries ≤ filling.inserted then filling.drop
      else
        match freeSlot filling.dest mac with
        | none => filling.drop
        | some idx =>
          { filling with
            dest := update filling.dest idx ⟨mac, true⟩
            inserted := filling.inserted + 1 }

structure Rebuild where
  list : DhcpAllowedList
  skipped : Nat
  done : Bool

def DhcpAllowedList.rebuild (list : DhcpAllowedList) (entries : List AllowedComputer) : Rebuild :=
  match list.slots with
  | none => ⟨list, entries.length, false⟩
  | some halves =>
    let next : Fin 2 := ⟨1 - list.active, by omega⟩
    let filling := entries.foldl Filling.next { dest := clearTable }
    ⟨{ slots := some (update halves next filling.dest)
       active := next
       count := filling.inserted }, filling.dropped, true⟩

def distinctMacs (list : List AllowedComputer) : List Mac :=
  ((list.filter AllowedComputer.enabled).filterMap fun entry ↦ parseMac entry.mac).eraseDups

def admitted (list : List AllowedComputer) : List Mac := (distinctMacs list).take kMaxEntries

def home (mac : Mac) : Nat := (hashMac mac).toNat

def keyAt (slots : Nat → Slot) (idx : Nat) : Option Mac :=
  if (slots idx).used then some (slots idx).mac else none

theorem probeSlots_iff (slots : Nat → Slot) (mac : Mac) (probes idx : Nat) :
    probeSlots slots mac probes idx ↔
      ProbeTable.probe kSlots (keyAt slots) mac probes idx = .here := by
  induction probes generalizing idx with
  | zero => simp [probeSlots, ProbeTable.probe]
  | succ probes ih =>
    rw [probeSlots, ProbeTable.probe, keyAt]
    cases hused : (slots idx).used with
    | false => simp
    | true =>
      by_cases hmac : (slots idx).mac = mac
      · simp [hmac]
      · simpa [hmac] using ih _

theorem freeSlotFrom_eq (slots : Nat → Slot) (mac : Mac) (probes idx : Nat) :
    freeSlotFrom slots mac probes idx =
      match ProbeTable.probe kSlots (keyAt slots) mac probes idx with
      | .free place => some place
      | .here | .nowhere => none := by
  induction probes generalizing idx with
  | zero => rfl
  | succ probes ih =>
    rw [freeSlotFrom, ProbeTable.probe, keyAt]
    cases hused : (slots idx).used with
    | false => simp
    | true =>
      by_cases hmac : (slots idx).mac = mac
      · simp [hmac]
      · simpa [hmac] using ih _

theorem keyAt_update (slots : Nat → Slot) (idx : Nat) (mac : Mac) :
    keyAt (update slots idx ⟨mac, true⟩) = update (keyAt slots) idx (some mac) := by
  funext place
  by_cases hplace : place = idx
  · rw [hplace, update_self, keyAt, update_self]
    rfl
  · rw [update_of_ne hplace, keyAt, keyAt, update_of_ne hplace]

section Admitted

variable {seen : List AllowedComputer} {entry : AllowedComputer} {mac : Mac}

theorem eraseDups_concat (macs : List Mac) (mac : Mac) :
    (macs ++ [mac]).eraseDups = if mac ∈ macs then macs.eraseDups else macs.eraseDups ++ [mac] := by
  rw [eraseDups_append, List.removeAll]
  by_cases hmem : mac ∈ macs
  · rw [if_pos hmem, filter_cons_of_neg (by simpa using hmem)]
    exact append_nil _
  · rw [if_neg hmem, filter_cons_of_pos (by simpa using hmem)]
    rfl

theorem distinctMacs_append (seen more : List AllowedComputer) :
    ∃ rest, distinctMacs (seen ++ more) = distinctMacs seen ++ rest := by
  rw [distinctMacs, distinctMacs, filter_append, filterMap_append, eraseDups_append]
  exact ⟨_, rfl⟩

theorem admitted_of_full (hfull : kMaxEntries ≤ (admitted seen).length) (more : List AllowedComputer) :
    admitted (seen ++ more) = admitted seen := by
  obtain ⟨rest, hrest⟩ := distinctMacs_append seen more
  have hlength : kMaxEntries ≤ (distinctMacs seen).length := hfull.trans (length_take_le' _ _)
  rw [admitted, hrest, take_append_of_le_length hlength, admitted]

theorem admitted_of_room (hroom : (admitted seen).length < kMaxEntries) :
    admitted seen = distinctMacs seen := by
  rw [admitted, length_take] at hroom
  exact take_of_length_le (by omega)

theorem admitted_disabled (hdisabled : entry.enabled = false) :
    admitted (seen ++ [entry]) = admitted seen := by
  rw [admitted, distinctMacs, filter_append, filter_singleton, hdisabled]
  simp [admitted, distinctMacs]

theorem admitted_unreadable (hmac : parseMac entry.mac = none) :
    admitted (seen ++ [entry]) = admitted seen := by
  rw [admitted, distinctMacs, filter_append, filter_singleton, filterMap_append]
  cases entry.enabled <;> simp [admitted, distinctMacs, hmac]

theorem admitted_readable (henabled : entry.enabled) (hmac : parseMac entry.mac = some mac)
    (hroom : (admitted seen).length < kMaxEntries) :
    admitted (seen ++ [entry]) = if mac ∈ admitted seen then admitted seen else admitted seen ++ [mac] := by
  have hseen := admitted_of_room hroom
  have hmacs : distinctMacs (seen ++ [entry]) =
      if mac ∈ distinctMacs seen then distinctMacs seen else distinctMacs seen ++ [mac] := by
    have hlast : (bif entry.enabled then [entry] else []).filterMap
        (fun entry ↦ parseMac entry.mac) = [mac] := by simp [henabled, hmac]
    rw [distinctMacs, filter_append, filter_singleton, filterMap_append, hlast,
      eraseDups_concat, distinctMacs]
    simp only [mem_eraseDups]
  rw [hseen] at hroom ⊢
  rw [admitted, hmacs]
  split
  · exact take_of_length_le hroom.le
  · apply take_of_length_le
    rw [length_append, length_singleton]
    exact hroom

end Admitted

/-- The half that is being filled, after the entries `seen`. -/
structure Filled (seen : List AllowedComputer) (filling : Filling) : Prop where
  sound : ProbeTable.Sound kSlots home (keyAt filling.dest)
  holds : ∀ mac, ProbeTable.Holds kSlots (keyAt filling.dest) mac ↔ mac ∈ admitted seen
  inserted : filling.inserted = (admitted seen).length
  dropped : filling.dropped + (admitted seen).length = seen.countP AllowedComputer.enabled

theorem filled_empty : Filled [] { dest := clearTable } where
  sound := ProbeTable.sound_empty kSlots home
  holds mac := by simp [ProbeTable.Holds, keyAt, clearTable, admitted, distinctMacs]
  inserted := rfl
  dropped := rfl

section Filled

variable {seen : List AllowedComputer} {entry : AllowedComputer} {filling : Filling} {mac : Mac}

section

variable (hfilled : Filled seen filling)
include hfilled

theorem Filled.drop (henabled : entry.enabled)
    (hsame : admitted (seen ++ [entry]) = admitted seen) : Filled (seen ++ [entry]) filling.drop where
  sound := hfilled.sound
  holds mac := by rw [hsame]; exact hfilled.holds mac
  inserted := by rw [hsame]; exact hfilled.inserted
  dropped := by
    have hdropped := hfilled.dropped
    rw [hsame, countP_append, countP_singleton, henabled]
    simp only [Filling.drop, if_true]
    omega

theorem Filled.freeSlot (hroom : (admitted seen).length < kMaxEntries) (mac : Mac) :
    (mac ∈ admitted seen ∧ freeSlot filling.dest mac = none) ∨
      mac ∉ admitted seen ∧ ∃ idx, freeSlot filling.dest mac = some idx ∧
        ProbeTable.probe kSlots (keyAt filling.dest) mac kSlots (home mac % kSlots) = .free idx := by
  have hhere := hfilled.sound.probe_eq_here_iff mac
  have hnowhere := hfilled.sound.probe_ne_nowhere (fun key ↦ (hfilled.holds key).mp)
    (hroom.trans (by decide)) mac
  have hslot : AllowedList.freeSlot filling.dest mac =
      match ProbeTable.probe kSlots (keyAt filling.dest) mac kSlots (home mac % kSlots) with
      | .free place => some place
      | .here | .nowhere => none := freeSlotFrom_eq filling.dest mac kSlots _
  rw [hfilled.holds] at hhere
  rw [hslot]
  cases hprobe : ProbeTable.probe kSlots (keyAt filling.dest) mac kSlots (home mac % kSlots) with
  | here => exact .inl ⟨hhere.mp hprobe, rfl⟩
  | free idx =>
    have hnew : mac ∉ admitted seen := by
      rw [← hhere, hprobe]
      simp
    exact .inr ⟨hnew, idx, rfl, rfl⟩
  | nowhere => exact absurd hprobe hnowhere

theorem Filled.insert (henabled : entry.enabled)
    (hnew : admitted (seen ++ [entry]) = admitted seen ++ [mac]) {idx : Nat}
    (hprobe : ProbeTable.probe kSlots (keyAt filling.dest) mac kSlots (home mac % kSlots) = .free idx) :
    Filled (seen ++ [entry])
      { filling with
        dest := update filling.dest idx ⟨mac, true⟩
        inserted := filling.inserted + 1 } where
  sound := by
    rw [keyAt_update]
    exact hfilled.sound.insert hprobe
  holds other := by
    rw [keyAt_update, ProbeTable.holds_insert hprobe, hfilled.holds, hnew, mem_append,
      mem_singleton, or_comm]
  inserted := by rw [hnew, length_append, hfilled.inserted, length_singleton]
  dropped := by
    have hdropped := hfilled.dropped
    rw [hnew, length_append, countP_append, countP_singleton, henabled, length_singleton]
    simp only [if_true]
    omega

theorem Filled.next (entry : AllowedComputer) : Filled (seen ++ [entry]) (filling.next entry) := by
  rw [Filling.next]
  cases henabled : entry.enabled with
  | false =>
    have hsame : admitted (seen ++ [entry]) = admitted seen := admitted_disabled henabled
    have hcount : (seen ++ [entry]).countP AllowedComputer.enabled =
        seen.countP AllowedComputer.enabled := by
      simp [countP_append, henabled]
    exact ⟨hfilled.sound, fun mac ↦ by rw [hsame]; exact hfilled.holds mac,
      by rw [hsame]; exact hfilled.inserted, by rw [hsame, hcount]; exact hfilled.dropped⟩
  | true =>
    cases hmac : parseMac entry.mac with
    | none => exact hfilled.drop henabled (admitted_unreadable hmac)
    | some mac =>
      simp only [Bool.not_true, Bool.false_eq_true, if_false]
      by_cases hfull : kMaxEntries ≤ filling.inserted
      · rw [if_pos hfull]
        rw [hfilled.inserted] at hfull
        exact hfilled.drop henabled (admitted_of_full hfull [entry])
      · rw [if_neg hfull]
        rw [hfilled.inserted] at hfull
        have hroom := Nat.lt_of_not_le hfull
        have hadmitted := admitted_readable henabled hmac hroom
        rcases hfilled.freeSlot hroom mac with ⟨hmem, hslot⟩ | ⟨hnew, idx, hslot, hprobe⟩
        · rw [hslot]
          exact hfilled.drop henabled (hadmitted.trans (if_pos hmem))
        · rw [hslot]
          exact hfilled.insert henabled (hadmitted.trans (if_neg hnew)) hprobe

theorem filled_foldl (entries : List AllowedComputer) :
    Filled (seen ++ entries) (entries.foldl Filling.next filling) := by
  induction entries generalizing seen filling with
  | nil => rwa [append_nil]
  | cons entry entries ih =>
    have hrest := ih (hfilled.next entry)
    rwa [append_assoc] at hrest

end

end Filled

structure Mirrors (entries : List AllowedComputer) (result : Rebuild) : Prop where
  done : result.done = true
  contains : ∀ mac, result.list.contains mac = true ↔ mac ∈ admitted entries
  count : result.list.count = (admitted entries).length
  skipped : result.skipped + (admitted entries).length = entries.countP AllowedComputer.enabled

theorem mirrors_rebuild {list : DhcpAllowedList} (havailable : list.available)
    (entries : List AllowedComputer) : Mirrors entries (list.rebuild entries) := by
  obtain ⟨halves, hhalves⟩ := isSome_iff_exists.mp havailable
  have hfilled := filled_foldl filled_empty entries
  rw [nil_append] at hfilled
  rw [DhcpAllowedList.rebuild, hhalves]
  refine ⟨rfl, ?_, hfilled.inserted, hfilled.dropped⟩
  intro mac
  rw [← hfilled.holds, ← hfilled.sound.probe_eq_here_iff, home, ← probeSlots_iff]
  simp only [DhcpAllowedList.contains, DhcpAllowedList.table, map_some, Table.contains, update_self]

def rebuilds (list : DhcpAllowedList) (lists : List (List AllowedComputer)) : DhcpAllowedList :=
  lists.foldl (fun list entries ↦ (list.rebuild entries).list) list

theorem available_rebuilds {list : DhcpAllowedList} (havailable : list.available)
    (lists : List (List AllowedComputer)) : (rebuilds list lists).available := by
  induction lists generalizing list with
  | nil => exact havailable
  | cons entries lists ih =>
    have hnext : (list.rebuild entries).list.available := by
      obtain ⟨halves, hhalves⟩ := isSome_iff_exists.mp havailable
      rw [DhcpAllowedList.rebuild, hhalves]
      rfl
    exact ih hnext

/-- After any calls the table is the one of the last list, and nothing of the earlier ones is left. -/
theorem table_mirrors_last_list (list : DhcpAllowedList) (earlier : List (List AllowedComputer))
    (last : List AllowedComputer) :
    Mirrors last ((rebuilds (list.init true).1 earlier).rebuild last) :=
  mirrors_rebuild (available_rebuilds rfl earlier) last

end DhcpServer.Dhcp.AllowedList
