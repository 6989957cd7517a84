import DhcpServer.Dhcp.AllowedText
import DhcpServer.Library.Trim

/-!
# What a saved allow-list comes back as

The text holds the first entries whose address can be read. Reading it gives these entries, with each
name cleaned a second time. The first cleaning trims the name before it replaces the bars and cuts it,
so that what is left may begin or end with a blank, and the second one takes that away.
-/

namespace DhcpServer.Dhcp.AllowedList

open Library List

theorem trim_eq_trimBy (text : Bytes) : trim text = trimBy isSpace text := rfl

def Trimmed (text : Bytes) : Prop :=
  (∀ byte ∈ text.head?, isSpace byte = false) ∧ ∀ byte ∈ text.getLast?, isSpace byte = false

theorem trim_eq_self_iff (text : Bytes) : trim text = text ↔ Trimmed text := by
  rw [trim_eq_trimBy, trimBy_eq_self_iff]
  rfl

/-- What `storageFieldText` makes of a byte. -/
def fieldByte (byte : UInt8) : UInt8 := if byte = bar ∨ byte = newline ∨ byte = 0x0D then 0x20 else byte

theorem sanitizeName_eq (name : Bytes) : sanitizeName name = ((trim name).take kMaxNameLen).map fieldByte :=
  map_take.symm

theorem fieldByte_again (byte : UInt8) : fieldByte (fieldByte byte) = fieldByte byte := by
  by_cases hseparator : byte = bar ∨ byte = newline ∨ byte = 0x0D
  · rw [fieldByte, fieldByte, if_pos hseparator]
    decide
  · rw [fieldByte, fieldByte, if_neg hseparator, if_neg hseparator]

theorem isSpace_fieldByte (byte : UInt8) :
    isSpace (fieldByte byte) = false ↔ isSpace byte = false ∧ byte ≠ bar := by
  by_cases hseparator : byte = bar ∨ byte = newline ∨ byte = 0x0D
  · rw [fieldByte, if_pos hseparator]
    rcases hseparator with rfl | rfl | rfl <;> decide
  · rw [fieldByte, if_neg hseparator]
    simp only [not_or] at hseparator
    simp [hseparator.1]

theorem sanitizeName_again (name : Bytes) :
    sanitizeName (sanitizeName name) = trim (sanitizeName name) := by
  have hsublist : (trim (sanitizeName name)).Sublist (sanitizeName name) := trimBy_sublist isSpace _
  have hlength : (trim (sanitizeName name)).length ≤ kMaxNameLen :=
    hsublist.length_le.trans (length_take_le _ _)
  have hmap : (trim (sanitizeName name)).map fieldByte = trim (sanitizeName name) := by
    refine (map_congr_left ?_).trans (map_id _)
    intro byte hbyte
    have hmem := hsublist.subset hbyte
    rw [sanitizeName_eq] at hmem
    obtain ⟨other, -, rfl⟩ := mem_map.mp hmem
    exact fieldByte_again other
  rw [sanitizeName_eq, take_of_length_le hlength, hmap]

theorem trim_trim (text : Bytes) : trim (trim text) = trim text := trimBy_trimBy isSpace text

/-- The trimmed name does not begin with a bar, and what is kept of it does not end with a bar or a
space. -/
def Settled (name : Bytes) : Prop :=
  (trim name).head? ≠ some bar ∧
    ∀ byte ∈ ((trim name).take kMaxNameLen).getLast?, isSpace byte = false ∧ byte ≠ bar

theorem sanitizeName_again_iff (name : Bytes) :
    sanitizeName (sanitizeName name) = sanitizeName name ↔ Settled name := by
  have hhead : (∀ byte ∈ (sanitizeName name).head?, isSpace byte = false) ↔
      (trim name).head? ≠ some bar := by
    rw [sanitizeName_eq, head?_map, head?_take, if_neg (by decide)]
    cases hfirst : (trim name).head? with
    | none => simp
    | some first =>
      have hspace : isSpace first = false := head_trimBy isSpace name first hfirst
      simp [isSpace_fieldByte, hspace]
  have hlast : (∀ byte ∈ (sanitizeName name).getLast?, isSpace byte = false) ↔
      ∀ byte ∈ ((trim name).take kMaxNameLen).getLast?, isSpace byte = false ∧ byte ≠ bar := by
    rw [sanitizeName_eq, getLast?_map]
    cases ((trim name).take kMaxNameLen).getLast? with
    | none => simp
    | some last => simp [isSpace_fieldByte]
  rw [sanitizeName_again, trim_eq_self_iff, Trimmed, Settled, hhead, hlast]

def readable (list : List AllowedComputer) : List AllowedComputer :=
  (list.filter fun entry ↦ (parseMac entry.mac).isSome).take kMaxEntries

def identity (entry : AllowedComputer) : Option Mac × Bool := (parseMac entry.mac, entry.enabled)

structure CodecExact (list : List AllowedComputer) : Prop where
  fits : (serialize list).length ≤ 1024
  kept : (parse (serialize list)).map identity = (readable list).map identity
  stable : serialize (parse (serialize list)) = serialize list

theorem written_map_snd (list : List AllowedComputer) : (written list).map Prod.snd = readable list := by
  rw [written, readable, map_take, map_filterMap]
  congr 1
  induction list with
  | nil => rfl
  | cons entry list ih =>
    rw [filterMap_cons, filter_cons]
    cases hmac : parseMac entry.mac <;> simpa [hmac] using ih

theorem parseMac_of_mem_written {list : List AllowedComputer} {entry : Mac × AllowedComputer}
    (hentry : entry ∈ written list) : parseMac entry.2.mac = some entry.1 := by
  obtain ⟨other, -, hother⟩ := mem_filterMap.mp (mem_of_mem_take hentry)
  obtain ⟨mac, hmac, rfl⟩ := Option.map_eq_some_iff.mp hother
  exact hmac

theorem parse_serialize_identity (list : List AllowedComputer) :
    (parse (serialize list)).map identity = (readable list).map identity := by
  rw [parse_serialize_eq, ← written_map_snd, map_map, map_map]
  apply map_congr_left
  intro entry hentry
  have hback : parseMac (readBack entry.1 entry.2).mac = some entry.1 := parseMac_formatMac entry.1
  have hmac := parseMac_of_mem_written hentry
  exact Prod.ext (hback.trans hmac.symm) rfl

theorem written_parse_serialize (list : List AllowedComputer) : written (parse (serialize list)) =
      (written list).map fun entry ↦ (entry.1, readBack entry.1 entry.2) := by
  have hfilter : ((written list).map fun entry ↦ readBack entry.1 entry.2).filterMap
      (fun entry ↦ (parseMac entry.mac).map fun mac ↦ (mac, entry)) =
        (written list).map fun entry ↦ (entry.1, readBack entry.1 entry.2) := by
    rw [filterMap_map, ← filterMap_eq_map]
    congr 1
    funext entry
    have hback : parseMac (readBack entry.1 entry.2).mac = some entry.1 := parseMac_formatMac entry.1
    simp [hback]
  rw [parse_serialize_eq, written, hfilter]
  apply take_of_length_le
  rw [length_map]
  exact length_written_le list

theorem intercalate_inj {first second : List Bytes} (hfirst : ∀ text ∈ first, newline ∉ text)
    (hsecond : ∀ text ∈ second, newline ∉ text) (hlength : first.length = second.length)
    (hsame : [newline].intercalate first = [newline].intercalate second) : first = second := by
  by_cases hempty : first = []
  · rw [hempty, length_nil] at hlength
    rw [hempty, length_eq_zero_iff.mp hlength.symm]
  · have hfilled : second ≠ [] := by
      rintro rfl
      exact hempty (length_eq_zero_iff.mp hlength)
    calc first = ([newline].intercalate first).splitOn newline :=
        (splitOn_intercalate newline hfirst hempty).symm
      _ = ([newline].intercalate second).splitOn newline := by rw [hsame]
      _ = second := splitOn_intercalate newline hsecond hfilled

theorem line_readBack_eq_iff (mac : Mac) (entry : AllowedComputer) :
    line mac (readBack mac entry) = line mac entry ↔ Settled entry.name := by
  have hname : sanitizeName (readBack mac entry).name = trim (sanitizeName entry.name) := by
    calc sanitizeName (sanitizeName (sanitizeName entry.name))
        = trim (sanitizeName (sanitizeName entry.name)) := sanitizeName_again (sanitizeName entry.name)
      _ = trim (trim (sanitizeName entry.name)) := by rw [sanitizeName_again]
      _ = trim (sanitizeName entry.name) := trim_trim _
  rw [← sanitizeName_again_iff, sanitizeName_again, line, line, hname, append_cancel_left_eq,
    cons_inj_right]
  exact append_left_inj _

theorem serialize_stable_iff (list : List AllowedComputer) :
    serialize (parse (serialize list)) = serialize list ↔ ∀ entry ∈ readable list, Settled entry.name := by
  have hfree (entries : List (Mac × AllowedComputer)) :
      ∀ text ∈ entries.map fun entry ↦ line entry.1 entry.2, newline ∉ text := by
    intro text htext
    obtain ⟨entry, -, rfl⟩ := mem_map.mp htext
    exact newline_notMem_line _ _
  have hlines : serialize (parse (serialize list)) = serialize list ↔
      (written list).map (fun entry ↦ line entry.1 (readBack entry.1 entry.2)) =
        (written list).map fun entry ↦ line entry.1 entry.2 := by
    have hback : (written (parse (serialize list))).map (fun entry ↦ line entry.1 entry.2) =
        (written list).map fun entry ↦ line entry.1 (readBack entry.1 entry.2) := by
      rw [written_parse_serialize, map_map]
      rfl
    have hagain : serialize (parse (serialize list)) = [newline].intercalate
        ((written list).map fun entry ↦ line entry.1 (readBack entry.1 entry.2)) := by
      rw [serialize_eq (parse (serialize list)), hback]
    have hfree' := hfree (written (parse (serialize list)))
    rw [hback] at hfree'
    rw [hagain, serialize_eq list]
    refine ⟨intercalate_inj hfree' (hfree _) ?_, congrArg _⟩
    rw [length_map, length_map]
  rw [hlines, map_inj_left, ← written_map_snd]
  simp only [line_readBack_eq_iff, forall_mem_map]

/-- The codec keeps its promises exactly for the lists whose stored names are settled. -/
theorem codecExact_iff (list : List AllowedComputer) :
    CodecExact list ↔ ∀ entry ∈ readable list, Settled entry.name :=
  ⟨fun hexact ↦ (serialize_stable_iff list).mp hexact.stable, fun hsettled ↦
    ⟨length_serialize_le list, parse_serialize_identity list, (serialize_stable_iff list).mpr hsettled⟩⟩

/-- The 20 bytes that are kept of the name end with a blank. -/
theorem cut_name_is_not_stable :
    ¬CodecExact [⟨ascii "240ac4012345", ascii "kitchen radio front window", true⟩] := by
  intro hexact
  exact absurd hexact.stable (by decide +kernel)

end DhcpServer.Dhcp.AllowedList
