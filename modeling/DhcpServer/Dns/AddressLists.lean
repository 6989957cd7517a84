import DhcpServer.Library.Segments
import DhcpServer.Dns.ForwardSlots
import DhcpServer.Web.JsonWriter

/-!
# Address lists in the cache queues

The addresses of a result and of a record to store cross a queue as one text, joined with commas in
a field of 256 bytes. The field is cut at a byte and not at an address, so that the last address of
a long list may arrive shortened; what is left of it can be an address of its own.
-/

namespace DhcpServer.Dns.AddressLists

open Library ExternalCache List

open ForwardSlots (splitIps Output)

/-- The switches of `DnsCache` that `store` looks at. -/
structure StoreSettings where
  enabled : Bool
  writeEnabled : Bool
  url : Bytes

structure CacheStoreRecord where
  type : UInt16
  domain : Bytes
  ips : Bytes
deriving DecidableEq

/-- What `store` puts into the queue of the sender. -/
def store (settings : StoreSettings) (domain : Bytes) (type : UInt16) (ips : List Bytes) :
    Option CacheStoreRecord :=
  if !settings.enabled || !settings.writeEnabled || settings.url.isEmpty then none
  else if ips.isEmpty then none
  else
    let normal := normalizeDomain domain
    if normal.isEmpty then none
    else some {
      type
      domain := strncpy (kDomainBytes - 1) normal
      ips := strncpy (kIpListBytes - 1) (List.intercalate [0x2C] ips) }

/-- The addresses that the body of the PUT request lists. -/
def CacheStoreRecord.addresses (record : CacheStoreRecord) : List Bytes := splitIps record.ips

def quoted (ip : Bytes) : Bytes := 0x22 :: (ip ++ [0x22])

/-- The body of the PUT request, `{"ips":[...],"type":N}`. -/
def buildStoreJson (record : CacheStoreRecord) : Bytes :=
  ascii "\x7b\"ips\":[" ++ List.intercalate [0x2C] (record.addresses.map quoted) ++
    ascii "],\"type\":" ++ Web.Json.intText record.type.toNat ++ ascii "\x7d"

theorem splitIps_eq (list : Bytes) :
    splitIps list = (list.splitOn 0x2C).filter fun piece ↦ !piece.isEmpty := by
  simp only [splitIps]
  congr 1
  induction list with
  | nil => rfl
  | cons byte list ih =>
    rw [foldr_cons, ih, splitOn_cons_eq_if_modifyHead]
    obtain ⟨piece, rest, hsplit⟩ := exists_cons_of_ne_nil (splitOn_ne_nil (0x2C : UInt8) list)
    rw [hsplit]
    by_cases hcomma : byte = 0x2C <;> simp [hcomma]

/-- A text of an address: it holds neither commas nor zero bytes. -/
structure AddressText (text : Bytes) : Prop where
  ne_nil : text ≠ []
  comma : 0x2C ∉ text
  zero : 0 ∉ text

def joinedField (ips : List Bytes) : Bytes := strncpy (kIpListBytes - 1) (List.intercalate [0x2C] ips)

/-- The field holds the whole list, or ends with an address or with the comma behind one. -/
def EndsBetween (ips : List Bytes) : Prop :=
  (List.intercalate [0x2C] ips).length < kIpListBytes ∨
    ∃ taken, taken <+: ips ∧ ((List.intercalate [0x2C] taken).length = kIpListBytes - 1 ∨
      (List.intercalate [0x2C] taken ++ [0x2C]).length = kIpListBytes - 1)

section Splitting

variable {ips taken : List Bytes} {part whole : Bytes}

section

variable (haddresses : ∀ text ∈ ips, AddressText text)
include haddresses

theorem filter_addresses : (ips.filter fun piece ↦ !piece.isEmpty) = ips := by
  rw [filter_eq_self]
  intro text htext
  simpa using (haddresses text htext).ne_nil

theorem splitIps_intercalate : splitIps (List.intercalate [0x2C] ips) = ips := by
  by_cases hips : ips = []
  · rw [hips]
    rfl
  · calc splitIps (List.intercalate [0x2C] ips)
        = ips.filter fun piece ↦ !piece.isEmpty := by
          rw [splitIps_eq, splitOn_intercalate _ (fun text htext ↦ (haddresses text htext).comma) hips]
      _ = ips := filter_addresses haddresses

theorem splitIps_comma : splitIps (List.intercalate [0x2C] ips ++ [0x2C]) = ips := by
  rw [splitIps_eq, splitOn_append_cons_self, filter_append, ← splitIps_eq,
    splitIps_intercalate haddresses, splitOn_nil, filter_singleton]
  simp

theorem zero_notMem_intercalate : 0 ∉ List.intercalate [0x2C] ips := by
  induction ips with
  | nil => simp
  | cons text ips ih =>
    obtain ⟨htext, hrest⟩ := forall_mem_cons.mp haddresses
    by_cases hnil : ips = []
    · rw [hnil, intercalate_singleton]
      exact htext.zero
    · rw [intercalate_cons_of_ne_nil hnil]
      simp [htext.zero, ih hrest]

theorem joinedField_eq : joinedField ips = (List.intercalate [0x2C] ips).take (kIpListBytes - 1) := by
  rw [joinedField, strncpy, cString_eq_self (zero_notMem_intercalate haddresses)]

theorem splitIps_joinedField_of_short
    (hshort : (List.intercalate [0x2C] ips).length < kIpListBytes) : splitIps (joinedField ips) = ips := by
  have hwhole : joinedField ips = List.intercalate [0x2C] ips := by
    rw [joinedField_eq haddresses, take_of_length_le (by omega)]
  rw [hwhole, splitIps_intercalate haddresses]

theorem joinedField_of_start
    (hlength : whole.length = kIpListBytes - 1) (hbelow : whole <+: List.intercalate [0x2C] ips) :
    joinedField ips = whole := by
  rw [joinedField_eq haddresses, ← hlength]
  exact (prefix_iff_eq_take.mp hbelow).symm

theorem splitIps_joinedField_of_endsBetween
    (hends : EndsBetween ips) : splitIps (joinedField ips) <+: ips := by
  rcases hends with hshort | ⟨taken, ⟨behind, rfl⟩, hlast | hcomma⟩
  · have hwhole := splitIps_joinedField_of_short haddresses hshort
    exact ⟨[], by rw [append_nil, hwhole]⟩
  · have htaken : ∀ text ∈ taken, AddressText text := fun text htext ↦ haddresses text (by simp [htext])
    have hbelow : taken <+: taken ++ behind := prefix_append taken behind
    rw [joinedField_of_start haddresses hlast (intercalate_isPrefix hbelow), splitIps_intercalate htaken]
    exact hbelow
  · have htaken : ∀ text ∈ taken, AddressText text := fun text htext ↦ haddresses text (by simp [htext])
    have hne : taken ≠ [] := by
      rintro rfl
      exact absurd hcomma (by decide)
    cases behind with
    | nil =>
      have hshort : (List.intercalate [0x2C] (taken ++ [])).length < kIpListBytes := by
        rw [length_append, length_singleton] at hcomma
        rw [append_nil]
        omega
      have hwhole := splitIps_joinedField_of_short haddresses hshort
      exact ⟨[], by rw [append_nil, hwhole]⟩
    | cons next behind =>
      have hbelow : List.intercalate [0x2C] taken ++ [0x2C] <+:
          List.intercalate [0x2C] (taken ++ next :: behind) := by
        rw [intercalate_append_cons hne, prefix_append_right_inj]
        exact prefix_append [0x2C] _
      rw [joinedField_of_start haddresses hcomma hbelow, splitIps_comma htaken]
      exact prefix_append taken _

theorem endsBetween_of_splitIps_joinedField
    (hbelow : splitIps (joinedField ips) <+: ips) : EndsBetween ips := by
  by_cases hshort : (List.intercalate [0x2C] ips).length < kIpListBytes
  · exact .inl hshort
  have hips : ips ≠ [] := by
    rintro rfl
    exact hshort (by decide)
  obtain ⟨taken, part, whole, rest, hsplit, hpart, htake⟩ :=
    exists_take_intercalate (0x2C : UInt8) hips (kIpListBytes - 1)
  have hfield : joinedField ips = List.intercalate [0x2C] (taken ++ [part]) := by
    rw [joinedField_eq haddresses, htake]
  have hlength : (List.intercalate [0x2C] (taken ++ [part])).length = kIpListBytes - 1 := by
    rw [← htake, length_take]
    omega
  have htaken : ∀ text ∈ taken, AddressText text := by
    intro text htext
    exact haddresses text (by simp [hsplit, htext])
  have hbegins : taken <+: ips := ⟨whole :: rest, hsplit.symm⟩
  -- The cut falls behind a comma, or inside or behind the address `whole`.
  by_cases hempty : part = []
  · rw [hempty] at hlength
    have hne : taken ≠ [] := by
      rintro rfl
      exact absurd hlength (by decide)
    rw [intercalate_append_cons hne, intercalate_singleton] at hlength
    exact .inr ⟨taken, hbegins, .inr hlength⟩
  · have hwhole : AddressText whole := haddresses whole (by simp [hsplit])
    have hleft : AddressText part :=
      ⟨hempty, fun hmem ↦ hwhole.comma (hpart.mem hmem), fun hmem ↦ hwhole.zero (hpart.mem hmem)⟩
    have hpieces : ∀ text ∈ taken ++ [part], AddressText text := by
      intro text htext
      rcases mem_append.mp htext with hin | hlast
      · exact htaken text hin
      · rwa [mem_singleton.mp hlast]
    rw [hfield, splitIps_intercalate hpieces] at hbelow
    exact .inr ⟨taken ++ [part], hbelow, .inl hlength⟩

theorem splitIps_joinedField_prefix_iff : splitIps (joinedField ips) <+: ips ↔ EndsBetween ips :=
  ⟨endsBetween_of_splitIps_joinedField haddresses, splitIps_joinedField_of_endsBetween haddresses⟩

end

end Splitting

/-- The addresses an output hands on, to the built-in cache or to the client. -/
def outputIps : Output → List Bytes
  | .stored _ ips _ _ => ips
  | .replied _ (.answer ips _) _ => ips
  | .replied _ _ _ => []

/-- The list arrives at the built-in cache and at the client as the result of a lookup. -/
def SurvivesLookup (ips : List Bytes) : Prop :=
  ∀ (state : ForwardSlots.State) (request : LookupRequest) (opened : Option Nat),
    ∀ output ∈ (state.handleResult ⟨request, lookupResult request ips⟩ opened).2,
      (∀ ip ∈ outputIps output, ip ∈ ips) ∧ outputIps output <+: ips

/-- The list arrives in the PUT body as a record to store. -/
def SurvivesStore (ips : List Bytes) : Prop :=
  ∀ settings domain type record, store settings domain type ips = some record →
    (∀ ip ∈ record.addresses, ip ∈ ips) ∧ record.addresses <+: ips

def Survives (ips : List Bytes) : Prop := SurvivesLookup ips ∧ SurvivesStore ips

theorem outputIps_of_handleResult {state : ForwardSlots.State} {delivery : Delivery} {opened : Option Nat}
    {output : Output} (houtput : output ∈ (state.handleResult delivery opened).2) :
    outputIps output = [] ∨ outputIps output = splitIps delivery.result.ips := by
  have hexpired (index : Nat) (hexpire : output ∈ (state.forwardOrExpire index opened).2) :
      outputIps output = [] := by
    unfold ForwardSlots.State.forwardOrExpire at hexpire
    split at hexpire
    · exact absurd hexpire not_mem_nil
    · rw [ForwardSlots.State.expirePendingSlot, mem_singleton] at hexpire
      rw [hexpire]
      rfl
  unfold ForwardSlots.State.handleResult at houtput
  dsimp only at houtput
  split_ifs at houtput with hrange hidle hmiss hempty havailable
  · exact absurd houtput not_mem_nil
  · exact absurd houtput not_mem_nil
  · exact .inl (hexpired _ houtput)
  · exact .inl (hexpired _ houtput)
  · right
    rcases mem_append.mp houtput with hwarmed | hreplied
    · rw [mem_singleton.mp hwarmed]
      rfl
    · rw [mem_singleton.mp hreplied]
      rfl
  · right
    rw [nil_append, mem_singleton] at houtput
    rw [houtput]
    rfl

theorem ips_of_store {settings : StoreSettings} {domain : Bytes} {type : UInt16} {ips : List Bytes}
    {record : CacheStoreRecord} (hstore : store settings domain type ips = some record) :
    record.ips = joinedField ips := by
  simp only [store] at hstore
  split_ifs at hstore
  rw [← Option.some.inj hstore]
  rfl

variable {ips : List Bytes}

def waitingState : ForwardSlots.State where
  slots _ := { active := true }
  cache := .start onSettings
  internalAvailable := true
  nowMs := 0

section

variable (haddresses : ∀ text ∈ ips, AddressText text)
include haddresses

theorem endsBetween_of_survivesLookup (hsurvives : SurvivesLookup ips) : EndsBetween ips := by
  rw [← splitIps_joinedField_prefix_iff haddresses]
  by_cases hnone : splitIps (joinedField ips) = []
  · rw [hnone]
    exact nil_prefix
  have hips : ips ≠ [] := by
    rintro rfl
    exact hnone (by decide)
  have hhandled : Output.replied (waitingState.slots 0)
      (.answer (splitIps (joinedField ips)) ForwardSlots.kDefaultTtlSec) (.lookup ⟨0, kTypeA, letter 0⟩) ∈
        (waitingState.handleResult ⟨⟨0, kTypeA, letter 0⟩, lookupResult ⟨0, kTypeA, letter 0⟩ ips⟩
          none).2 := by
    rw [joinedField] at hnone
    unfold ForwardSlots.State.handleResult
    simp [joinedField, hnone, hips, waitingState, lookupResult, kMaxPendingForwards]
  exact (hsurvives waitingState ⟨0, kTypeA, letter 0⟩ none _ hhandled).2

theorem endsBetween_of_survivesStore (hsurvives : SurvivesStore ips) : EndsBetween ips := by
  rw [← splitIps_joinedField_prefix_iff haddresses]
  by_cases hips : ips = []
  · rw [hips]
    exact nil_prefix
  have hstore : store ⟨true, true, [0x68]⟩ (letter 0) kTypeA ips =
      some ⟨kTypeA, strncpy (kDomainBytes - 1) (normalizeDomain (letter 0)), joinedField ips⟩ := by
    have hfull : ips.isEmpty = false := by simpa using hips
    simp only [store, hfull]
    rfl
  exact (hsurvives _ _ _ _ hstore).2

theorem survivesLookup_iff : SurvivesLookup ips ↔ EndsBetween ips := by
  constructor
  · exact endsBetween_of_survivesLookup haddresses
  · intro hends state request opened output houtput
    have hbelow : splitIps (joinedField ips) <+: ips := splitIps_joinedField_of_endsBetween haddresses hends
    rcases outputIps_of_handleResult houtput with hnone | hsplit
    · rw [hnone]
      exact ⟨fun ip hip ↦ absurd hip not_mem_nil, nil_prefix⟩
    · have hfield : outputIps output = splitIps (joinedField ips) := hsplit
      rw [hfield]
      exact ⟨fun ip hip ↦ hbelow.mem hip, hbelow⟩

theorem survivesStore_iff : SurvivesStore ips ↔ EndsBetween ips := by
  constructor
  · exact endsBetween_of_survivesStore haddresses
  · intro hends settings domain type record hstore
    have hbelow : splitIps (joinedField ips) <+: ips := splitIps_joinedField_of_endsBetween haddresses hends
    rw [CacheStoreRecord.addresses, ips_of_store hstore]
    exact ⟨fun ip hip ↦ hbelow.mem hip, hbelow⟩

end

/-- A list of addresses survives the queues exactly when it fits the field, or the field ends between two of
its addresses. -/
theorem addresses_survive_iff (ips : List Bytes) (haddresses : ∀ text ∈ ips, AddressText text) :
    Survives ips ↔ EndsBetween ips := by
  rw [Survives, survivesLookup_iff haddresses, survivesStore_iff haddresses, and_self]

/-- Nineteen addresses of twelve letters and one of nine: their text has 256 letters. -/
def twentyAddresses : List Bytes := List.replicate 19 (ascii "192.168.1.10") ++ [ascii "10.0.0.12"]

theorem twentyAddresses_texts : ∀ text ∈ twentyAddresses, AddressText text := by
  intro text htext
  rcases mem_append.mp htext with hmany | hlast
  · rw [eq_of_mem_replicate hmany]
    exact ⟨by decide, by decide, by decide⟩
  · rw [mem_singleton.mp hlast]
    exact ⟨by decide, by decide, by decide⟩

theorem twentyAddresses_survive_iff : Survives twentyAddresses ↔ EndsBetween twentyAddresses :=
  addresses_survive_iff twentyAddresses twentyAddresses_texts

/-- The last of the twenty loses its last letter, and what is left is another address. -/
theorem last_address_is_cut : ¬ ∀ ips : List Bytes, (∀ text ∈ ips, AddressText text) → Survives ips := by
  intro hsurvive
  have hstore : store ⟨true, true, [0x68]⟩ (letter 0) kTypeA twentyAddresses =
      some ⟨kTypeA, letter 0, joinedField twentyAddresses⟩ := by decide +kernel
  have hcut : ascii "10.0.0.1" ∈ splitIps (joinedField twentyAddresses) := by decide +kernel
  have hother : ascii "10.0.0.1" ∉ twentyAddresses := by decide +kernel
  exact hother (((hsurvive twentyAddresses twentyAddresses_texts).2 _ _ _ _ hstore).1 _ hcut)

end DhcpServer.Dns.AddressLists
