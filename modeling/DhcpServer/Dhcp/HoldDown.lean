import DhcpServer.Dhcp.Runs
import Mathlib.Data.Finset.Card

/-!
# The hold-down after a DECLINE

A refused address stays in the table of refusals for an hour, unless so many other ones are refused that
it is the oldest of a full table. The four places that decide on an address ask the table, so meanwhile
the address goes to nobody but the clients with a binding for it and the client that holds an entry for
it already.
-/

namespace DhcpServer.Dhcp

open Library List Option

namespace DeclinedAddresses

/-! ## The table of refusals -/

/-- Every address is refused once, and none in the future. -/
structure Sound (table : DeclinedAddresses) (nowMs : Nat) : Prop where
  length : table.entries.length = kCapacity
  distinct : ∀ (i j : Nat) (first second : DeclinedEntry), table.entries[i]? = some first →
    table.entries[j]? = some second → first.used → second.used → first.ip = second.ip → i = j
  past : ∀ entry ∈ table.entries, entry.used → entry.sinceMs ≤ nowMs

variable {table : DeclinedAddresses} {ip : UInt32} {nowMs nowMs' since : Nat}

theorem sound_empty : Sound empty nowMs where
  length := length_replicate
  distinct i j first second hfirst _ hused := by
    have hmem := mem_of_getElem? hfirst
    rw [eq_of_mem_replicate hmem] at hused
    simp at hused
  past entry hentry hused := by
    rw [eq_of_mem_replicate hentry] at hused
    simp at hused

variable {entry : DeclinedEntry}

theorem getElem?_of_expire {i : Nat}
    (hentry : (table.expire nowMs).entries[i]? = some entry) (hused : entry.used) :
    table.entries[i]? = some entry := by
  simp only [expire, getElem?_map, map_eq_some_iff] at hentry
  obtain ⟨old, hold, rfl⟩ := hentry
  split_ifs at hused ⊢ with hexpired
  exact hold

theorem getElem?_expire {i : Nat} (hentry : table.entries[i]? = some entry)
    (hforce : ageMs nowMs entry.sinceMs < kDeclineHoldMs) :
    (table.expire nowMs).entries[i]? = some entry := by
  simp [expire, hentry, Nat.not_le.mpr hforce]

theorem Sound.mono (hsound : Sound table nowMs) (hle : nowMs ≤ nowMs') : Sound table nowMs' :=
  ⟨hsound.length, hsound.distinct, fun entry hentry hused ↦ (hsound.past entry hentry hused).trans hle⟩

theorem Sound.expire (hsound : Sound table nowMs) : Sound (table.expire nowMs') nowMs where
  length := by simp [DeclinedAddresses.expire, hsound.length]
  distinct i j first second hfirst hsecond hone htwo :=
    hsound.distinct i j first second (getElem?_of_expire hfirst hone) (getElem?_of_expire hsecond htwo)
      hone htwo
  past entry hentry hused := by
    obtain ⟨i, hi⟩ := getElem?_of_mem hentry
    exact hsound.past entry (mem_of_getElem? (getElem?_of_expire hi hused)) hused

theorem oldest_foldl (entries : List DeclinedEntry) (indices : List Nat) (best : Nat) :
    let found := indices.foldl (fun best i ↦
      if (entries.getD i {}).sinceMs < (entries.getD best {}).sinceMs then i else best) best
    (found = best ∨ found ∈ indices) ∧ (entries.getD found {}).sinceMs ≤ (entries.getD best {}).sinceMs ∧
      ∀ i ∈ indices, (entries.getD found {}).sinceMs ≤ (entries.getD i {}).sinceMs := by
  induction indices generalizing best with
  | nil => simp
  | cons index indices ih =>
    obtain ⟨hfound, hbest, hrest⟩ := ih
      (if (entries.getD index {}).sinceMs < (entries.getD best {}).sinceMs then index else best)
    simp only [foldl_cons, mem_cons, forall_eq_or_imp]
    split_ifs at hfound hbest hrest ⊢ with hless
    · refine ⟨.inr hfound, by omega, hbest, hrest⟩
    · refine ⟨hfound.imp_right .inr, hbest, by omega, hrest⟩

variable {entries : List DeclinedEntry}

theorem oldest_spec (hlength : 0 < entries.length) : oldest entries < entries.length ∧
      ∀ i < entries.length, (entries.getD (oldest entries) {}).sinceMs ≤ (entries.getD i {}).sinceMs := by
  obtain ⟨hfound, -, hrest⟩ := oldest_foldl entries (List.range entries.length) 0
  refine ⟨?_, fun i hi ↦ hrest i (mem_range.mpr hi)⟩
  rcases hfound with hzero | hmem
  · exact lt_of_eq_of_lt hzero hlength
  · exact mem_range.mp hmem

/-- Where a refusal goes: over the entry of the address, into a free place, or over the oldest entry. -/
inductive Slot (entries : List DeclinedEntry) (ip : UInt32) : Nat → Prop
  | own {i : Nat} (entry : DeclinedEntry) : entries[i]? = some entry → entry.used → entry.ip = ip →
      Slot entries ip i
  | free {i : Nat} (entry : DeclinedEntry) : (∀ entry ∈ entries, entry.used → entry.ip ≠ ip) →
      entries[i]? = some entry → entry.used = false → Slot entries ip i
  | full : (∀ entry ∈ entries, entry.used → entry.ip ≠ ip) → (∀ entry ∈ entries, entry.used) →
      Slot entries ip (oldest entries)

theorem add_slot (table : DeclinedAddresses) (ip : UInt32) (nowMs : Nat) :
    ∃ i, Slot (table.expire nowMs).entries ip i ∧
      (table.add ip nowMs).1.entries = (table.expire nowMs).entries.set i ⟨ip, nowMs, true⟩ := by
  unfold add
  dsimp only
  split
  · rename_i i hown
    obtain ⟨hlt, hmatch, -⟩ := findIdx?_eq_some_iff_getElem.mp hown
    simp only [Bool.and_eq_true, beq_iff_eq] at hmatch
    have hentry := getElem?_eq_getElem hlt
    refine ⟨i, .own _ hentry hmatch.1 hmatch.2, ?_⟩
    rw [modify_eq_set_get _ hlt, get_eq_getElem]
    rcases hsame : (table.expire nowMs).entries[i] with ⟨ip', sinceMs, used⟩
    obtain ⟨rfl, rfl⟩ : used = true ∧ ip' = ip := by simpa [hsame] using hmatch
    rfl
  · rename_i hother
    have hnew : ∀ entry ∈ (table.expire nowMs).entries, entry.used → entry.ip ≠ ip := by
      intro entry hentry hused hip
      have hno := findIdx?_eq_none_iff.mp hother entry hentry
      simp [hused, hip] at hno
    split
    · rename_i i hfree
      obtain ⟨hlt, hmatch, -⟩ := findIdx?_eq_some_iff_getElem.mp hfree
      exact ⟨i, .free _ hnew (getElem?_eq_getElem hlt) (by simpa using hmatch), rfl⟩
    · rename_i hfull
      refine ⟨_, .full hnew fun entry hentry ↦ ?_, rfl⟩
      simpa using findIdx?_eq_none_iff.mp hfull entry hentry

/-- An entry of the address at another place than the one a refusal of it goes to is none in use. -/
theorem Slot.other {i j : Nat}
    (hslot : Slot entries ip i)
    (hdistinct : ∀ (i j : Nat) (first second : DeclinedEntry), entries[i]? = some first →
      entries[j]? = some second → first.used → second.used → first.ip = second.ip → i = j)
    (hentry : entries[j]? = some entry) (hused : entry.used) (hip : entry.ip = ip) : i = j := by
  cases hslot with
  | own mine hmine hmineUsed hmineIp =>
    exact hdistinct _ _ mine entry hmine hentry hmineUsed hused (hmineIp.trans hip.symm)
  | free _ hnew _ _ => exact absurd hip (hnew entry (mem_of_getElem? hentry) hused)
  | full hnew _ => exact absurd hip (hnew entry (mem_of_getElem? hentry) hused)

theorem Slot.lt {i : Nat} (hslot : Slot entries ip i)
    (hlength : 0 < entries.length) : i < entries.length := by
  cases hslot with
  | own _ hmine => exact (List.getElem?_eq_some_iff.mp hmine).1
  | free _ _ hmine => exact (List.getElem?_eq_some_iff.mp hmine).1
  | full => exact (oldest_spec hlength).1

theorem mem_of_add (hentry : entry ∈ (table.add ip nowMs).1.entries)
    (hused : entry.used) : entry ∈ table.entries ∨ entry = ⟨ip, nowMs, true⟩ := by
  obtain ⟨i, -, hentries⟩ := add_slot table ip nowMs
  rw [hentries] at hentry
  rcases mem_or_eq_of_mem_set hentry with hold | rfl
  · obtain ⟨j, hj⟩ := getElem?_of_mem hold
    exact .inl (mem_of_getElem? (getElem?_of_expire hj hused))
  · exact .inr rfl

theorem Sound.add (hsound : Sound table nowMs) (hle : nowMs ≤ nowMs') :
    Sound (table.add ip nowMs').1 nowMs' := by
  obtain ⟨i, hslot, hentries⟩ := add_slot table ip nowMs'
  have hexpired : Sound (table.expire nowMs') nowMs := hsound.expire
  refine ⟨?_, ?_, ?_⟩
  · rw [hentries, length_set, hexpired.length]
  · intro j k first second hfirst hsecond hone htwo hip
    rw [hentries, getElem?_set] at hfirst hsecond
    split_ifs at hfirst hsecond with hj hk hk
    · exact hj.symm.trans hk
    · cases hfirst
      exact absurd (hslot.other hexpired.distinct hsecond htwo hip.symm) hk
    · cases hsecond
      exact absurd (hslot.other hexpired.distinct hfirst hone hip) hj
    · exact hexpired.distinct j k first second hfirst hsecond hone htwo hip
  · intro entry hentry hused
    rcases mem_of_add hentry hused with hold | rfl
    · exact le_trans (hsound.past entry hold hused) hle
    · exact le_rfl

theorem Sound.capacity_le (hsound : Sound table nowMs) {others : Finset UInt32}
    (hall : ∀ entry ∈ table.entries, entry.used ∧ entry.ip ∈ others) : kCapacity ≤ others.card := by
  have hget (i : Nat) (hi : i ∈ Finset.range kCapacity) :
      ∃ entry, table.entries[i]? = some entry ∧ entry.used ∧ entry.ip ∈ others := by
    have hlt : i < table.entries.length := hsound.length ▸ Finset.mem_range.mp hi
    exact ⟨_, getElem?_eq_getElem hlt, hall _ (getElem_mem hlt)⟩
  have hmaps : ∀ i ∈ Finset.range kCapacity, (table.entries[i]?.getD {}).ip ∈ others := by
    intro i hi
    obtain ⟨entry, hentry, -, hmem⟩ := hget i hi
    simpa [hentry] using hmem
  have hinjective : Set.InjOn (fun i : Nat ↦ (table.entries[i]?.getD ({} : DeclinedEntry)).ip)
      (Finset.range kCapacity : Set Nat) := by
    intro i hi j hj hip
    obtain ⟨first, hfirst, hone, -⟩ := hget i hi
    obtain ⟨second, hsecond, htwo, -⟩ := hget j hj
    simp only [hfirst, hsecond, getD_some] at hip
    exact hsound.distinct i j first second hfirst hsecond hone htwo hip
  simpa using Finset.card_le_card_of_injOn _ hmaps hinjective

/-- The address is held since that time, and everything refused since then is one of the others. -/
structure Held (table : DeclinedAddresses) (ip : UInt32) (since : Nat) (others : Finset UInt32) : Prop where
  entry : ∃ (i : Nat) (entry : DeclinedEntry), table.entries[i]? = some entry ∧ entry.used ∧
    entry.ip = ip ∧ since ≤ entry.sinceMs
  recent : ∀ entry ∈ table.entries, entry.used → since ≤ entry.sinceMs → entry.ip ≠ ip → entry.ip ∈ others

variable {others : Finset UInt32}

theorem ageMs_lt {sinceMs : Nat} (hpast : sinceMs ≤ nowMs) (hsince : since ≤ sinceMs)
    (hearly : nowMs < since + kDeclineHoldMs) : ageMs nowMs sinceMs < kDeclineHoldMs := by
  unfold ageMs
  omega

theorem Held.isDeclined (hheld : Held table ip since others) (hsound : Sound table nowMs)
    (hearly : nowMs < since + kDeclineHoldMs) : table.isDeclined ip nowMs := by
  obtain ⟨i, entry, hentry, hused, hip, hsince⟩ := hheld.entry
  have hmem := mem_of_getElem? hentry
  unfold DeclinedAddresses.isDeclined
  cases hfind : table.entries.find? fun entry ↦ entry.used && entry.ip == ip with
  | none =>
    have hno := find?_eq_none.mp hfind entry hmem
    simp [hused, hip] at hno
  | some found =>
    have hmatch := find?_some hfind
    simp only [Bool.and_eq_true, beq_iff_eq] at hmatch
    obtain ⟨j, hj⟩ := getElem?_of_mem (mem_of_find?_eq_some hfind)
    obtain rfl := hsound.distinct i j entry found hentry hj hused hmatch.1 (hip.trans hmatch.2.symm)
    obtain rfl := Option.some.inj (hentry.symm.trans hj)
    simpa using ageMs_lt (hsound.past entry hmem hused) hsince hearly

/-- The refusal of another address takes the place of a held one only when there are too many. -/
theorem Held.add (hheld : Held table ip since others) (hsound : Sound table nowMs)
    (hle : nowMs ≤ nowMs') (hearly : nowMs' < since + kDeclineHoldMs) (hfew : others.card < kCapacity)
    {declined : UInt32} (hdeclined : declined ≠ ip → declined ∈ others) :
    Held (table.add declined nowMs').1 ip since others := by
  obtain ⟨place, entry, hentry, hused, hip, hsince⟩ := hheld.entry
  obtain ⟨i, hslot, hentries⟩ := add_slot table declined nowMs'
  have hpast := hsound.past entry (mem_of_getElem? hentry) hused
  have hkept := getElem?_expire hentry (ageMs_lt (hpast.trans hle) hsince hearly)
  have hexpired : Sound (table.expire nowMs') nowMs := hsound.expire
  have hnow : since ≤ nowMs' := hsince.trans (hpast.trans hle)
  have hrecent : ∀ entry ∈ (table.add declined nowMs').1.entries, entry.used → since ≤ entry.sinceMs →
      entry.ip ≠ ip → entry.ip ∈ others := by
    intro other hother hotherUsed hotherSince hotherIp
    rcases mem_of_add hother hotherUsed with hold | rfl
    · exact hheld.recent other hold hotherUsed hotherSince hotherIp
    · exact hdeclined hotherIp
  refine ⟨?_, hrecent⟩
  by_cases hsame : i = place
  · subst hsame
    have hlt : i < (table.expire nowMs').entries.length := (List.getElem?_eq_some_iff.mp hkept).1
    have hwritten : (table.add declined nowMs').1.entries[i]? = some ⟨declined, nowMs', true⟩ := by
      rw [hentries, getElem?_set_self hlt]
    refine ⟨i, _, hwritten, rfl, ?_, hnow⟩
    by_contra hother
    cases hslot with
    | own mine hmine _ hmineIp =>
      obtain rfl := Option.some.inj (hkept.symm.trans hmine)
      exact hother (hmineIp.symm.trans hip)
    | free mine _ hmine hunused =>
      obtain rfl := Option.some.inj (hkept.symm.trans hmine)
      simp [hused] at hunused
    | full hnew hall =>
      -- the whole table is as young as the held address, so it is full of others
      have hyoung : ∀ entry ∈ (table.add declined nowMs').1.entries, entry.used ∧ entry.ip ∈ others := by
        intro other hin
        obtain ⟨j, hj⟩ := getElem?_of_mem hin
        rw [hentries, getElem?_set] at hj
        split_ifs at hj with hplace
        · cases hj
          exact ⟨rfl, hdeclined hother⟩
        · have hmem := mem_of_getElem? hj
          have hotherUsed := hall other hmem
          have hold := (oldest_spec (Nat.zero_lt_of_lt hlt)).2 j (List.getElem?_eq_some_iff.mp hj).1
          rw [getD_eq_getElem?_getD, getD_eq_getElem?_getD, hkept, hj] at hold
          have hotherIp : other.ip ≠ ip := fun hsameIp ↦
            hplace (hexpired.distinct _ j entry other hkept hj hused hotherUsed (hip.trans hsameIp.symm))
          exact ⟨hotherUsed, hrecent other hin hotherUsed (hsince.trans hold) hotherIp⟩
      have hadded : Sound (table.add declined nowMs').1 nowMs' := hsound.add hle
      have hcapacity := hadded.capacity_le hyoung
      omega
  · exact ⟨place, entry, by rw [hentries, getElem?_set_ne hsame, hkept], hused, hip, hsince⟩

theorem held_add (hsound : Sound table nowMs)
    (hrecent : ∀ entry ∈ table.entries, entry.used → entry.sinceMs = nowMs → entry.ip ≠ ip →
      entry.ip ∈ others) : Held (table.add ip nowMs).1 ip nowMs others := by
  obtain ⟨i, hslot, hentries⟩ := add_slot table ip nowMs
  have hexpired : Sound (table.expire nowMs) nowMs := hsound.expire
  refine ⟨⟨i, ⟨ip, nowMs, true⟩, ?_, rfl, rfl, le_rfl⟩, fun entry hentry hused hsince hip ↦ ?_⟩
  · rw [hentries, getElem?_set_self (hslot.lt (by rw [hexpired.length]; decide))]
  · rcases mem_of_add hentry hused with hold | rfl
    · exact hrecent entry hold hused (le_antisymm (hsound.past entry hold hused) hsince) hip
    · exact absurd rfl hip

end DeclinedAddresses

section Messages

variable {cfg : Config} {net : Net} {mac : Mac} {ip : UInt32} {hostname : Bytes} {message : Message}
  {fuel : Nat} {state state' : State} {replies : List Reply}

/-- The client has a binding for the address, or its entry. -/
def MayHave (cfg : Config) (state : State) (ip : UInt32) (mac : Mac) : Prop :=
  isStaticBindingForMac cfg mac ip = true ∨ ∃ lease, state.leases[ip]? = some lease ∧ lease.mac = mac

/-- Whoever looks the address up between the two times finds it refused. -/
def RefusedUntil (state : State) (ip : UInt32) (after : Nat) : Prop :=
  ∀ clockUs, state.clockUs ≤ clockUs → clockUs ≤ after → addressDeclined state ip clockUs = true

theorem scanRange_declined {start : UInt32} {clockUs after : Nat}
    (hscan : scanRange cfg net state fuel start clockUs = some (ip, after)) (hip : ip ≠ 0) :
    ∃ checked, clockUs ≤ checked ∧ checked ≤ after ∧ addressDeclined state ip checked = false := by
  induction fuel generalizing start clockUs with
  | zero => simp [scanRange] at hscan
  | succ fuel ih =>
    rw [scanRange] at hscan
    dsimp only at hscan
    split_ifs at hscan with hend hserver hleased hdeclined hprobe
    · exact ih hscan
    · exact ih hscan
    · exact ih hscan
    · obtain ⟨checked, hle, hrest⟩ := ih hscan
      exact ⟨checked, (clockUs_le_probeIp net start clockUs).trans hle, hrest⟩
    · obtain ⟨rfl, rfl⟩ := Prod.mk.inj (Option.some.inj hscan)
      exact ⟨clockUs, le_rfl, clockUs_le_probeIp net start clockUs, by simpa using hdeclined⟩
    · cases hscan
      exact absurd rfl hip

theorem selectIp_mayHave {clockUs after : Nat} (hclock : state.clockUs ≤ clockUs)
    (hselect : selectIp fuel cfg net mac state clockUs = some (ip, after)) (hip : ip ≠ 0)
    (hrefused : RefusedUntil state ip after) : MayHave cfg state ip mac := by
  unfold selectIp at hselect
  split at hselect
  · rename_i entry hbinding
    cases hselect
    have hguard := find?_some hbinding
    simp only [Bool.and_eq_true, beq_iff_eq] at hguard
    refine .inl (any_eq_true.mpr ⟨entry, mem_of_find?_eq_some hbinding, ?_⟩)
    simp [hguard.1.1, hguard.1.2]
  · split at hselect
    · rename_i ip' lease hown
      cases hselect
      have hlease := Std.TreeMap.mem_toList_iff_getElem?_eq_some.mp (mem_of_find?_eq_some hown)
      exact .inr ⟨lease, hlease, by simpa using find?_some hown⟩
    · obtain ⟨checked, hle, hafter, hfree⟩ := scanRange_declined hselect hip
      have hheld := hrefused checked (hclock.trans hle) hafter
      simp [hfree] at hheld

theorem chooseOfferIp_mayHave {requestedIp : UInt32} {after : Nat}
    (hchoose : chooseOfferIp fuel cfg net mac requestedIp state = some (ip, after)) (hip : ip ≠ 0)
    (hrefused : RefusedUntil state ip after) : MayHave cfg state ip mac := by
  have hle := (chooseOfferIp_source hchoose).clockUs_le
  unfold chooseOfferIp at hchoose
  dsimp only at hchoose
  split_ifs at hchoose with hasked hfixed hdeclined hprobe
  · cases hchoose
    exact .inl hfixed
  · exact selectIp_mayHave le_rfl hchoose hip hrefused
  · exact selectIp_mayHave (clockUs_le_probeIp _ _ _) hchoose hip hrefused
  · cases hchoose
    exact absurd (hrefused state.clockUs le_rfl hle) hdeclined
  · exact selectIp_mayHave le_rfl hchoose hip hrefused

theorem decideRequest_mayHave {after : Nat} (hdecide : decideRequest cfg net mac ip state = (true, after))
    (hrefused : RefusedUntil state ip after) : MayHave cfg state ip mac := by
  obtain ⟨hle, -⟩ := decideRequest_spec hdecide
  unfold decideRequest at hdecide
  by_cases hfixed : isStaticBindingForMac cfg mac ip
  · exact .inl hfixed
  · rw [if_neg hfixed] at hdecide
    split at hdecide
    · rename_i lease hlease
      exact .inr ⟨lease, hlease, beq_iff_eq.mp (Prod.mk.inj hdecide).1⟩
    · rw [if_pos (hrefused state.clockUs le_rfl hle)] at hdecide
      simp at hdecide

theorem mayHave_of_purged {now : Nat} {table : LeaseTable} (hpurged : Purged now state.leases table)
    {lease : DhcpLease} (hlease : table[ip]? = some lease) : MayHave cfg state ip lease.mac := by
  rcases hpurged ip with hsame | ⟨hnone, -⟩
  · exact .inr ⟨lease, hsame.symm.trans hlease, rfl⟩
  · simp [hnone] at hlease

/-- While an address is refused, a message grants it only to a client that may have it, and its entry
belongs to such a client afterwards. -/
theorem dispatch_mayHave (hdispatch : dispatch fuel cfg net message state = some (state', replies))
    (hrefused : RefusedUntil state ip state'.clockUs) :
    (∀ reply ∈ replies, reply.msgType = kDhcpOffer ∨ reply.msgType = kDhcpAck → reply.yiaddr = ip →
        MayHave cfg state ip reply.chaddr) ∧
      ∀ lease, state'.leases[ip]? = some lease → MayHave cfg state ip lease.mac := by
  have hkept {lease : DhcpLease} (hlease : state.leases[ip]? = some lease) :
      MayHave cfg state ip lease.mac := .inr ⟨lease, hlease, rfl⟩
  unfold dispatch at hdispatch
  split_ifs at hdispatch with hdiscover hrequest hrelease hdecline
  · obtain ⟨offered, hchoose, ⟨rfl, -, hpurged⟩ | ⟨hzero, rfl, hreservation⟩⟩ :=
      sendDhcpOffer_spec hdispatch
    · exact ⟨by simp, fun lease hlease ↦ mayHave_of_purged hpurged hlease⟩
    · have hmine (hip : offered = ip) : MayHave cfg state ip message.chaddr :=
        chooseOfferIp_mayHave (hip ▸ hchoose) (hip ▸ hzero) hrefused
      refine ⟨fun reply hreply _ hip ↦ ?_, fun lease hlease ↦ ?_⟩
      · obtain rfl := mem_singleton.mp hreply
        exact hmine hip
      · cases hreservation with
        | kept old hold _ hlookup =>
          rw [hlookup ip] at hlease
          split_ifs at hlease with hip
          · cases hlease
            rw [DhcpLease.rename_mac]
            exact hkept (hip ▸ hold)
          · exact hkept hlease
        | written purged _ hpurged hlookup =>
          rw [hlookup ip] at hlease
          split_ifs at hlease with hip
          · cases hlease
            exact hmine hip
          · exact mayHave_of_purged hpurged hlease
  · obtain ⟨-, ⟨hnak, hpurged⟩ | ⟨purged, rfl, -, hdecide, hpurged, hlookup⟩⟩ :=
      handleRequest_spec (Option.some.inj hdispatch)
    · refine ⟨fun reply hreply hgrant _ ↦ ?_, fun lease hlease ↦ mayHave_of_purged hpurged hlease⟩
      rw [hnak reply hreply] at hgrant
      exact absurd hgrant (by decide)
    · have hmine (hip : assignedIp message = ip) : MayHave cfg state ip message.chaddr :=
        decideRequest_mayHave (hip ▸ hdecide) hrefused
      refine ⟨fun reply hreply _ hip ↦ ?_, fun lease hlease ↦ ?_⟩
      · obtain rfl := mem_singleton.mp hreply
        exact hmine hip
      · rw [hlookup ip] at hlease
        split_ifs at hlease with hip
        · cases hlease
          exact hmine hip
        · exact mayHave_of_purged hpurged hlease
  all_goals
    cases hdispatch
    refine ⟨by simp, fun lease hlease ↦ hkept ?_⟩
  · rw [handleRelease, Std.TreeMap.getElem?_erase] at hlease
    split_ifs at hlease
    exact hlease
  · unfold handleDecline at hlease
    split at hlease
    · split_ifs at hlease
      · rw [Std.TreeMap.getElem?_erase] at hlease
        split_ifs at hlease
        exact hlease
      · exact hlease
    · exact hlease
  · exact hlease

theorem canAddLeaseEntry_declined (cfg : Config) (ip : UInt32) (state : State) :
    (canAddLeaseEntry cfg ip state).2.declined = state.declined := by
  unfold canAddLeaseEntry removeExpiredLeases
  dsimp only
  split_ifs <;> rfl

theorem reserveOffer_declined (cfg : Config) (mac : Mac) (ip : UInt32) (hostname : Bytes) (state : State) :
    (reserveOffer cfg mac ip hostname state).2.declined = state.declined := by
  have hwrite : (writeReservation cfg mac ip hostname state).2.declined = state.declined := by
    unfold writeReservation
    have hcan := canAddLeaseEntry_declined cfg ip state
    split <;> simp_all [putLease]
  unfold reserveOffer
  split
  · split_ifs
    · rfl
    · exact hwrite
  · exact hwrite

theorem sendDhcpOffer_declined (hsend : sendDhcpOffer fuel cfg net message state = some (state', replies)) :
    state'.declined = state.declined := by
  simp only [sendDhcpOffer, bind_eq_bind, bind_eq_some_iff, Prod.exists] at hsend
  obtain ⟨ip, clockUs, -, hsend⟩ := hsend
  split_ifs at hsend
  · cases hsend
    rfl
  · have hreserve := reserveOffer_declined cfg message.chaddr ip message.clientName { state with clockUs }
    split at hsend
    all_goals
      rename_i hresult
      cases hsend
      rw [hresult] at hreserve
      exact hreserve

theorem handleRequest_declined (cfg : Config) (net : Net) (message : Message) (state : State) :
    (handleRequest cfg net message state).1.declined = state.declined := by
  unfold handleRequest
  dsimp only
  split_ifs
  · split
    · rfl
    · rename_i clockUs _
      have hcan := canAddLeaseEntry_declined cfg (assignedIp message) { state with clockUs }
      split
      all_goals
        rename_i hresult
        rw [hresult] at hcan
        exact hcan
  · rfl
  · rfl

theorem dispatch_declined (hdispatch : dispatch fuel cfg net message state = some (state', replies))
    (htype : message.msgType ≠ kDhcpDecline) : state'.declined = state.declined := by
  unfold dispatch at hdispatch
  split_ifs at hdispatch
  · exact sendDhcpOffer_declined hdispatch
  · have hrequest := handleRequest_declined cfg net message state
    rw [Option.some.inj hdispatch] at hrequest
    exact hrequest
  all_goals
    cases hdispatch
    rfl

theorem dispatch_decline (hdispatch : dispatch fuel cfg net message state = some (state', replies))
    (htype : message.msgType = kDhcpDecline) : state' = handleDecline message state := by
  unfold dispatch at hdispatch
  rw [if_neg (by rw [htype]; decide), if_neg (by rw [htype]; decide), if_neg (by rw [htype]; decide),
    if_pos htype] at hdispatch
  exact (Prod.mk.inj (Option.some.inj hdispatch)).1.symm

end Messages

end DhcpServer.Dhcp
