import DhcpServer.Dhcp.AllowedText

/-!
# The lists in the settings store

The static bindings and the local hosts are each stored as one text, a line for each entry and a bar
between two fields. Before a field is written its separators become blanks, so that what is read has
every field in its place. A line of an older firmware ends before the flags, which are on then.

The store gives back what was written last.
-/

namespace DhcpServer.Core

open Library List Function
open Dhcp.AllowedList (bar newline cut storageFieldText cut_append notMem_storageFieldText)

namespace Config

abbrev Blobs := Bytes → Option Bytes

def kKeyDhcpBindings : Bytes := ascii "dhcp_bindings"
def kKeyDnsHosts : Bytes := ascii "dns_hosts"
def kMaxBindingsBytes : Nat := 512
def kMaxLocalHostsBytes : Nat := 512

def readBlob (blobs : Blobs) (key : Bytes) : Option Bytes := (blobs key).filter fun blob ↦ !blob.isEmpty

def writeBlob (blobs : Blobs) (key data : Bytes) : Blobs := update blobs key (some data)

def eraseKey (blobs : Blobs) (key : Bytes) : Blobs := update blobs key none

/-- The lines that `getline` gives and that are not passed over. -/
def textLines (text : Bytes) : List Bytes := (text.splitOn newline).filter fun line ↦ !line.isEmpty

def flagText (flag : Bool) : Bytes := if flag then [0x31] else [0x30]

structure StaticBinding where
  mac : Bytes := []
  ip : Bytes := []
  name : Bytes := []
  gateway : Bytes := []
  useGateway : Bool := true
  enabled : Bool := true
  useDns : Bool := true
deriving DecidableEq

def flagAt (f : List Bytes) (place : Nat) : Bool := (f[place]?).all (· ≠ [0x30])

def bindingOf (f : List Bytes) : StaticBinding where
  mac := f.getD 0 []
  ip := f.getD 1 []
  name := f.getD 2 []
  gateway := f.getD 3 []
  useGateway := flagAt f 4
  enabled := flagAt f 5
  useDns := flagAt f 6

def StaticBinding.isKept (binding : StaticBinding) : Bool := !binding.mac.isEmpty && !binding.ip.isEmpty

def getStaticBindings (blobs : Blobs) : List StaticBinding :=
  match readBlob blobs kKeyDhcpBindings with
  | none => []
  | some text =>
    ((textLines text).map fun line ↦ bindingOf (line.splitOn bar)).filter StaticBinding.isKept

def StaticBinding.fields (binding : StaticBinding) : List Bytes :=
  [storageFieldText binding.mac, storageFieldText binding.ip, storageFieldText binding.name,
    storageFieldText binding.gateway, flagText binding.useGateway, flagText binding.enabled,
    flagText binding.useDns]

def bindingsText (bindings : List StaticBinding) : Bytes :=
  [newline].intercalate (bindings.map fun binding ↦ [bar].intercalate binding.fields)

/-- The store afterwards, and whether the list was taken. -/
def setStaticBindings (blobs : Blobs) (bindings : List StaticBinding) : Blobs × Bool :=
  if bindings.isEmpty then (eraseKey blobs kKeyDhcpBindings, true)
  else if kMaxBindingsBytes < (bindingsText bindings).length then (blobs, false)
  else (writeBlob blobs kKeyDhcpBindings (bindingsText bindings), true)

structure LocalHostEntry where
  name : Bytes := []
  ip4 : Bytes := []
  ip6 : Bytes := []
  enabled : Bool := true
deriving DecidableEq

def readHost (line : Bytes) : Option LocalHostEntry :=
  match cut line with
  | (_, none) => none
  | (name, some rest) =>
    match cut rest with
    | (ip4, none) => some { name, ip4 }
    | (ip4, some rest) =>
      match cut rest with
      | (ip6, none) => some { name, ip4, ip6 }
      | (ip6, some flag) => some { name, ip4, ip6, enabled := flag ≠ [0x30] }

def LocalHostEntry.isKept (host : LocalHostEntry) : Bool :=
  !host.name.isEmpty && (!host.ip4.isEmpty || !host.ip6.isEmpty)

def getLocalHosts (blobs : Blobs) : List LocalHostEntry :=
  match readBlob blobs kKeyDnsHosts with
  | none => []
  | some text => ((textLines text).filterMap readHost).filter LocalHostEntry.isKept

def LocalHostEntry.fields (host : LocalHostEntry) : List Bytes :=
  [storageFieldText host.name, storageFieldText host.ip4, storageFieldText host.ip6, flagText host.enabled]

def hostsText (hosts : List LocalHostEntry) : Bytes :=
  [newline].intercalate (hosts.map fun host ↦ [bar].intercalate host.fields)

def setLocalHosts (blobs : Blobs) (hosts : List LocalHostEntry) : Blobs × Bool :=
  if hosts.isEmpty then (eraseKey blobs kKeyDnsHosts, true)
  else if kMaxLocalHostsBytes < (hostsText hosts).length then (blobs, false)
  else (writeBlob blobs kKeyDnsHosts (hostsText hosts), true)

def Plain (f : List Bytes) : Prop := ∀ field ∈ f, bar ∉ field ∧ newline ∉ field

theorem splitOn_row {f : List Bytes} (hplain : Plain f) (hfilled : f ≠ []) :
    ([bar].intercalate f).splitOn bar = f :=
  splitOn_intercalate bar (fun field hfield ↦ (hplain field hfield).1) hfilled

theorem newline_notMem_row {f : List Bytes} (hplain : Plain f) : newline ∉ [bar].intercalate f := by
  induction f with
  | nil => simp
  | cons first f ih =>
    obtain ⟨hfirst, hrest⟩ := forall_mem_cons.mp hplain
    cases f with
    | nil => simpa using hfirst.2
    | cons second f =>
      rw [intercalate_cons_of_ne_nil (cons_ne_nil _ _)]
      simp only [mem_append, mem_singleton, not_or]
      exact ⟨⟨hfirst.2, by decide⟩, ih hrest⟩

def rowsText (rows : List (List Bytes)) : Bytes := [newline].intercalate (rows.map [bar].intercalate)

variable {rows : List (List Bytes)}

/-- The lines of some rows are read as they were written, except that empty ones are passed over. -/
theorem textLines_rowsText (hplain : ∀ row ∈ rows, Plain row) :
    textLines (rowsText rows) = (rows.map [bar].intercalate).filter fun line ↦ !line.isEmpty := by
  cases rows with
  | nil => rfl
  | cons first rows =>
    have hlines : ∀ line ∈ (first :: rows).map [bar].intercalate, newline ∉ line := by
      intro line hline
      obtain ⟨row, hrow, rfl⟩ := mem_map.mp hline
      exact newline_notMem_row (hplain row hrow)
    have hfilled : (first :: rows).map [bar].intercalate ≠ [] := cons_ne_nil _ _
    rw [textLines, rowsText, splitOn_intercalate newline hlines hfilled]

theorem readBlob_writeBlob (blobs : Blobs) (key data : Bytes) :
    readBlob (writeBlob blobs key data) key = if data.isEmpty then none else some data := by
  simp only [readBlob, writeBlob, update_self, Option.filter_some]
  cases data.isEmpty <;> rfl

theorem readBlob_eraseKey (blobs : Blobs) (key : Bytes) : readBlob (eraseKey blobs key) key = none := by
  simp only [readBlob, eraseKey, update_self, Option.filter_none]

def storedLines (blobs : Blobs) (key : Bytes) : List Bytes := (readBlob blobs key).elim [] textLines

theorem storedLines_writeBlob (hplain : ∀ row ∈ rows, Plain row)
    (blobs : Blobs) (key : Bytes) :
    storedLines (writeBlob blobs key (rowsText rows)) key =
      (rows.map [bar].intercalate).filter fun line ↦ !line.isEmpty := by
  have hlines := textLines_rowsText hplain
  rw [storedLines, readBlob_writeBlob]
  split
  · rename_i hnone
    rw [List.isEmpty_iff.mp hnone] at hlines
    exact hlines
  · exact hlines

/-- A list that reads its rows one by one: a line that is passed over would have given nothing. -/
theorem read_rows {α : Type} {read : Bytes → Option α} {entryOf : List Bytes → α} {isKept : α → Bool}
    (hempty : read [] = none) (hplain : ∀ row ∈ rows, Plain row)
    (hread : ∀ row ∈ rows, read ([bar].intercalate row) = (some (entryOf row)).filter isKept)
    (blobs : Blobs) (key : Bytes) :
    (storedLines (writeBlob blobs key (rowsText rows)) key).filterMap read =
      (rows.map entryOf).filter isKept := by
  rw [storedLines_writeBlob hplain]
  clear hplain
  induction rows with
  | nil => rfl
  | cons row rows ih =>
    obtain ⟨hrow, hrest⟩ := forall_mem_cons.mp hread
    have hhead : (if ([bar].intercalate row).isEmpty then none else read ([bar].intercalate row)) =
        (some (entryOf row)).filter isKept := by
      split
      · rename_i hnone
        rw [← hrow, List.isEmpty_iff.mp hnone, hempty]
      · exact hrow
    rw [map_cons, map_cons, filter_cons, filter_cons, ← ih hrest]
    cases hline : ([bar].intercalate row).isEmpty <;> cases hkept : isKept (entryOf row) <;>
      simp_all [Option.filter]

def readBinding (line : Bytes) : Option StaticBinding :=
  (some (bindingOf (line.splitOn bar))).filter StaticBinding.isKept

theorem getStaticBindings_eq (blobs : Blobs) :
    getStaticBindings blobs = (storedLines blobs kKeyDhcpBindings).filterMap readBinding := by
  have hread (lines : List Bytes) : (lines.map fun line ↦ bindingOf (line.splitOn bar)).filter
      StaticBinding.isKept = lines.filterMap readBinding := by
    rw [← filterMap_eq_filter, filterMap_map]
    rfl
  unfold getStaticBindings storedLines
  cases readBlob blobs kKeyDhcpBindings with
  | none => rfl
  | some text => exact hread (textLines text)

theorem readBinding_row {row : List Bytes} (hplain : Plain row) :
    readBinding ([bar].intercalate row) = (some (bindingOf row)).filter StaticBinding.isKept := by
  cases row with
  | nil => rfl
  | cons first row => rw [readBinding, splitOn_row hplain (cons_ne_nil _ _)]

theorem getStaticBindings_rows (hplain : ∀ row ∈ rows, Plain row)
    (blobs : Blobs) :
    getStaticBindings (writeBlob blobs kKeyDhcpBindings (rowsText rows)) =
      (rows.map bindingOf).filter StaticBinding.isKept := by
  rw [getStaticBindings_eq]
  exact read_rows rfl hplain (fun row hrow ↦ readBinding_row (hplain row hrow)) blobs _

def StaticBinding.stored (binding : StaticBinding) : StaticBinding :=
  { binding with
    mac := storageFieldText binding.mac
    ip := storageFieldText binding.ip
    name := storageFieldText binding.name
    gateway := storageFieldText binding.gateway }

theorem flagText_eq (flag : Bool) : decide (flagText flag = [0x30]) = !flag := by
  cases flag <;> rfl

theorem plain_flagText (flag : Bool) : bar ∉ flagText flag ∧ newline ∉ flagText flag := by
  cases flag <;> decide

theorem plain_storageFieldText (value : Bytes) :
    bar ∉ storageFieldText value ∧ newline ∉ storageFieldText value :=
  ⟨notMem_storageFieldText (.inl rfl) value, notMem_storageFieldText (.inr rfl) value⟩

theorem StaticBinding.plain_fields (binding : StaticBinding) : Plain binding.fields := by
  simp [Plain, StaticBinding.fields, plain_storageFieldText, plain_flagText]

theorem bindingOf_fields (binding : StaticBinding) : bindingOf binding.fields = binding.stored := by
  simp [bindingOf, StaticBinding.fields, StaticBinding.stored, flagAt, flagText_eq]

theorem getStaticBindings_bindingsText (blobs : Blobs) (bindings : List StaticBinding) :
    getStaticBindings (writeBlob blobs kKeyDhcpBindings (bindingsText bindings)) =
      (bindings.map StaticBinding.stored).filter StaticBinding.isKept := by
  have hrows : bindingsText bindings = rowsText (bindings.map StaticBinding.fields) := by
    rw [bindingsText, rowsText, map_map]
    rfl
  have hplain : ∀ row ∈ bindings.map StaticBinding.fields, Plain row := by
    intro row hrow
    obtain ⟨binding, -, rfl⟩ := mem_map.mp hrow
    exact binding.plain_fields
  rw [hrows, getStaticBindings_rows hplain, map_map]
  congr 2
  funext binding
  exact bindingOf_fields binding

theorem getStaticBindings_set (blobs : Blobs) (bindings : List StaticBinding)
    (hfits : (bindingsText bindings).length ≤ kMaxBindingsBytes) :
    (setStaticBindings blobs bindings).2 ∧ getStaticBindings (setStaticBindings blobs bindings).1 =
        (bindings.map StaticBinding.stored).filter StaticBinding.isKept := by
  cases bindings with
  | nil =>
    have hset : setStaticBindings blobs [] = (eraseKey blobs kKeyDhcpBindings, true) := rfl
    rw [hset, getStaticBindings, readBlob_eraseKey]
    exact ⟨rfl, rfl⟩
  | cons first bindings =>
    have hset : setStaticBindings blobs (first :: bindings) =
        (writeBlob blobs kKeyDhcpBindings (bindingsText (first :: bindings)), true) := by
      rw [setStaticBindings, if_neg (by simp), if_neg (by omega)]
    rw [hset]
    exact ⟨rfl, getStaticBindings_bindingsText blobs (first :: bindings)⟩

def hostOf (f : List Bytes) : LocalHostEntry where
  name := f.getD 0 []
  ip4 := f.getD 1 []
  ip6 := f.getD 2 []
  enabled := flagAt f 3

theorem cut_eq_self {text : Bytes} (htext : bar ∉ text) : cut text = (text, none) := by
  have hkeep : ∀ byte ∈ text, decide (byte ≠ bar) := by
    intro byte hbyte
    exact decide_eq_true fun heq ↦ htext (heq ▸ hbyte)
  rw [cut, takeWhile_eq_self_iff.mpr hkeep, dropWhile_eq_nil_iff.mpr hkeep]
  rfl

theorem readHost_row {row : List Bytes} (hplain : Plain row) (hlength : row.length ≤ 4) :
    (readHost ([bar].intercalate row)).filter LocalHostEntry.isKept =
      (some (hostOf row)).filter LocalHostEntry.isKept := by
  have hjoin (field : Bytes) (other : Bytes) (rest : List Bytes) :
      [bar].intercalate (field :: other :: rest) =
        field ++ bar :: [bar].intercalate (other :: rest) := by
    rw [intercalate_cons_of_ne_nil (cons_ne_nil _ _), append_assoc]
    rfl
  have hone (field : Bytes) : [bar].intercalate [field] = field := by simp
  match row, hplain, hlength with
  | [], _, _ => rfl
  | [name], hplain, _ =>
    have hname := (hplain name (by simp)).1
    rw [hone, readHost, cut_eq_self hname]
    simp [hostOf, LocalHostEntry.isKept, Option.filter]
  | [name, ip4], hplain, _ =>
    have hname := (hplain name (by simp)).1
    have hip4 := (hplain ip4 (by simp)).1
    rw [hjoin, hone, readHost, cut_append hname]
    simp only [cut_eq_self hip4]
    rfl
  | [name, ip4, ip6], hplain, _ =>
    have hname := (hplain name (by simp)).1
    have hip4 := (hplain ip4 (by simp)).1
    have hip6 := (hplain ip6 (by simp)).1
    rw [hjoin, hjoin, hone, readHost, cut_append hname]
    simp only [cut_append hip4, cut_eq_self hip6]
    rfl
  | [name, ip4, ip6, flag], hplain, _ =>
    have hname := (hplain name (by simp)).1
    have hip4 := (hplain ip4 (by simp)).1
    have hip6 := (hplain ip6 (by simp)).1
    rw [hjoin, hjoin, hjoin, hone, readHost, cut_append hname]
    simp only [cut_append hip4, cut_append hip6]
    rfl
  | _ :: _ :: _ :: _ :: _ :: _, _, hlength =>
    simp only [length_cons] at hlength
    omega

theorem getLocalHosts_eq (blobs : Blobs) :
    getLocalHosts blobs = (storedLines blobs kKeyDnsHosts).filterMap fun line ↦
      (readHost line).filter LocalHostEntry.isKept := by
  have hread (lines : List Bytes) : (lines.filterMap readHost).filter LocalHostEntry.isKept =
      lines.filterMap fun line ↦ (readHost line).filter LocalHostEntry.isKept := by
    rw [← filterMap_eq_filter, filterMap_filterMap]
    congr 1
    funext line
    cases readHost line <;> rfl
  unfold getLocalHosts storedLines
  cases readBlob blobs kKeyDnsHosts with
  | none => rfl
  | some text => exact hread (textLines text)

theorem getLocalHosts_rows (hplain : ∀ row ∈ rows, Plain row)
    (hlength : ∀ row ∈ rows, row.length ≤ 4) (blobs : Blobs) :
    getLocalHosts (writeBlob blobs kKeyDnsHosts (rowsText rows)) =
      (rows.map hostOf).filter LocalHostEntry.isKept := by
  rw [getLocalHosts_eq]
  exact read_rows rfl hplain
    (fun row hrow ↦ readHost_row (hplain row hrow) (hlength row hrow)) blobs _

def LocalHostEntry.stored (host : LocalHostEntry) : LocalHostEntry :=
  { host with
    name := storageFieldText host.name
    ip4 := storageFieldText host.ip4
    ip6 := storageFieldText host.ip6 }

theorem LocalHostEntry.plain_fields (host : LocalHostEntry) : Plain host.fields := by
  simp [Plain, LocalHostEntry.fields, plain_storageFieldText, plain_flagText]

theorem hostOf_fields (host : LocalHostEntry) : hostOf host.fields = host.stored := by
  simp [hostOf, LocalHostEntry.fields, LocalHostEntry.stored, flagAt, flagText_eq]

theorem getLocalHosts_hostsText (blobs : Blobs) (hosts : List LocalHostEntry) :
    getLocalHosts (writeBlob blobs kKeyDnsHosts (hostsText hosts)) =
      (hosts.map LocalHostEntry.stored).filter LocalHostEntry.isKept := by
  have hrows : hostsText hosts = rowsText (hosts.map LocalHostEntry.fields) := by
    rw [hostsText, rowsText, map_map]
    rfl
  have hplain : ∀ row ∈ hosts.map LocalHostEntry.fields, Plain row := by
    intro row hrow
    obtain ⟨host, -, rfl⟩ := mem_map.mp hrow
    exact host.plain_fields
  have hlength : ∀ row ∈ hosts.map LocalHostEntry.fields, row.length ≤ 4 := by
    intro row hrow
    obtain ⟨host, -, rfl⟩ := mem_map.mp hrow
    exact le_refl _
  rw [hrows, getLocalHosts_rows hplain hlength, map_map]
  congr 2
  funext host
  exact hostOf_fields host

theorem getLocalHosts_set (blobs : Blobs) (hosts : List LocalHostEntry)
    (hfits : (hostsText hosts).length ≤ kMaxLocalHostsBytes) :
    (setLocalHosts blobs hosts).2 ∧ getLocalHosts (setLocalHosts blobs hosts).1 =
      (hosts.map LocalHostEntry.stored).filter LocalHostEntry.isKept := by
  cases hosts with
  | nil =>
    have hset : setLocalHosts blobs [] = (eraseKey blobs kKeyDnsHosts, true) := rfl
    rw [hset, getLocalHosts, readBlob_eraseKey]
    exact ⟨rfl, rfl⟩
  | cons first hosts =>
    have hset : setLocalHosts blobs (first :: hosts) =
        (writeBlob blobs kKeyDnsHosts (hostsText (first :: hosts)), true) := by
      rw [setLocalHosts, if_neg (by simp), if_neg (by omega)]
    rw [hset]
    exact ⟨rfl, getLocalHosts_hostsText blobs (first :: hosts)⟩

theorem flagAt_eq_true {f : List Bytes} {place : Nat} (hshort : f.length ≤ place) :
    flagAt f place := by
  rw [flagAt, getElem?_eq_none hshort]
  rfl

/-- What is stored comes back field by field, and a list that does not fit changes nothing. A text whose
fields are without separators is read in the same way whatever the number of its fields. -/
theorem lists_survive_storage (blobs : Blobs) :
    (∀ bindings, if (bindingsText bindings).length ≤ kMaxBindingsBytes
      then (setStaticBindings blobs bindings).2 = true ∧
        getStaticBindings (setStaticBindings blobs bindings).1 =
          (bindings.filter fun binding ↦ !(storageFieldText binding.mac).isEmpty &&
            !(storageFieldText binding.ip).isEmpty).map StaticBinding.stored
      else setStaticBindings blobs bindings = (blobs, false)) ∧
    (∀ hosts, if (hostsText hosts).length ≤ kMaxLocalHostsBytes
      then (setLocalHosts blobs hosts).2 = true ∧ getLocalHosts (setLocalHosts blobs hosts).1 =
          (hosts.filter fun host ↦ !(storageFieldText host.name).isEmpty &&
            (!(storageFieldText host.ip4).isEmpty || !(storageFieldText host.ip6).isEmpty)).map
              LocalHostEntry.stored
      else setLocalHosts blobs hosts = (blobs, false)) ∧
    (∀ rows, (∀ row ∈ rows, Plain row) →
      getStaticBindings (writeBlob blobs kKeyDhcpBindings (rowsText rows)) =
          (rows.map bindingOf).filter StaticBinding.isKept ∧
        ∀ row ∈ rows, (row.length ≤ 4 → (bindingOf row).useGateway = true) ∧
          (row.length ≤ 5 → (bindingOf row).enabled = true) ∧
          (row.length ≤ 6 → (bindingOf row).useDns = true)) ∧
    ∀ rows, (∀ row ∈ rows, Plain row) → (∀ row ∈ rows, row.length ≤ 4) →
      getLocalHosts (writeBlob blobs kKeyDnsHosts (rowsText rows)) =
          (rows.map hostOf).filter LocalHostEntry.isKept ∧
        ∀ row ∈ rows, row.length ≤ 3 → (hostOf row).enabled = true := by
  refine ⟨fun bindings ↦ ?_, fun hosts ↦ ?_, fun rows hplain ↦ ⟨?_, ?_⟩, fun rows hplain hlength ↦ ⟨?_, ?_⟩⟩
  · split
    · rename_i hfits
      have hset := getStaticBindings_set blobs bindings hfits
      rw [filter_map] at hset
      exact hset
    · rename_i hlong
      rw [setStaticBindings, if_neg, if_pos (by omega)]
      rintro hnone
      rw [List.isEmpty_iff.mp hnone] at hlong
      exact hlong (by decide)
  · split
    · rename_i hfits
      have hset := getLocalHosts_set blobs hosts hfits
      rw [filter_map] at hset
      exact hset
    · rename_i hlong
      rw [setLocalHosts, if_neg, if_pos (by omega)]
      rintro hnone
      rw [List.isEmpty_iff.mp hnone] at hlong
      exact hlong (by decide)
  · exact getStaticBindings_rows hplain blobs
  · exact fun row _ ↦ ⟨flagAt_eq_true, flagAt_eq_true, flagAt_eq_true⟩
  · exact getLocalHosts_rows hplain hlength blobs
  · exact fun row _ ↦ flagAt_eq_true

end Config

end DhcpServer.Core
