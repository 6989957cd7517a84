import DhcpServer.Library.Occurrences
import DhcpServer.Web.JsonTokens

/-!
# Where a quoted name is found

The search for `"name"` knows nothing of strings. It passes over a text without quotes, and it passes
over a string exactly if the raw text between its last escaped quote and its closing quote is not the
name: an escaped quote opens a name for the search just as well. So a string such as `a\"port` stops
the search for `port`, and `port\"a` does not.
-/

namespace DhcpServer.Web.Json

open Library JsonText List

def needle (name : Bytes) : Bytes := quote :: name ++ [quote]

def isNameByte (byte : UInt8) : Bool :=
  (0x61 ≤ byte && byte ≤ 0x7A) || (0x30 ≤ byte && byte ≤ 0x39) || byte = 0x5F

/-- A key as the firmware spells them: small letters, digits and underscores. -/
def isName (name : Bytes) : Bool := !name.isEmpty && name.all isNameByte

section Name

variable {name : Bytes} (hname : isName name = true)

include hname

theorem nameByte_of_mem {byte : UInt8} (hbyte : byte ∈ name) : isNameByte byte := by
  simp only [isName, Bool.and_eq_true, all_eq_true] at hname
  exact hname.2 byte hbyte

theorem notMem_name {byte : UInt8} (hbyte : isNameByte byte = false) : byte ∉ name := by
  intro hmem
  rw [nameByte_of_mem hname hmem] at hbyte
  cases hbyte

theorem exists_name_cons : ∃ first rest, name = first :: rest := by
  cases name with
  | nil => cases hname
  | cons first rest => exact ⟨first, rest, rfl⟩

end Name

theorem find_cons_of_not {needle : Bytes} {byte : UInt8} {text : Bytes}
    (hnot : needle.isPrefixOf (byte :: text) = false) : find needle (byte :: text) = find needle text := by
  rw [find, hnot]
  simp

theorem find_append_of_notMem {first : UInt8} {needle chunk : Bytes} (hchunk : first ∉ chunk)
    (text : Bytes) : find (first :: needle) (chunk ++ text) = find (first :: needle) text := by
  induction chunk with
  | nil => rfl
  | cons byte chunk ih =>
    have hbyte : first ≠ byte := fun heq ↦ hchunk (heq ▸ mem_cons_self)
    have hnot : (first :: needle).isPrefixOf (byte :: (chunk ++ text)) = false := by
      simp [List.isPrefixOf, hbyte]
    rw [cons_append, find_cons_of_not hnot]
    exact ih fun hmem ↦ hchunk (mem_cons_of_mem byte hmem)

theorem find_self {needle : Bytes} {first : UInt8} {rest : Bytes} (hneedle : needle = first :: rest)
    (text : Bytes) : find needle (needle ++ text) = some (needle ++ text) := by
  subst hneedle
  have hstart : (first :: rest).isPrefixOf (first :: (rest ++ text)) := by
    rw [ isPrefixOf_iff_prefix]
    exact prefix_append (first :: rest) text
  rw [cons_append, find, hstart]
  simp

theorem find_eq_cutAt (first : UInt8) (others text : Bytes) :
    find (first :: others) text = (cutAt (first :: others) text).map fun cut ↦ first :: others ++ cut.2 := by
  induction text with
  | nil => simp [find, cutAt]
  | cons byte text ih =>
    rw [find, cutAt]
    by_cases hhere : first :: others <+: byte :: text
    · rw [if_pos ( isPrefixOf_iff_prefix.mpr hhere), if_pos hhere]
      exact congrArg some (prefix_iff_eq_append.mp hhere).symm
    · rw [if_neg fun hstart ↦ hhere ( isPrefixOf_iff_prefix.mp hstart), if_neg hhere, ih, Option.map_map]
      rfl

theorem eq_of_start {name raw text : Bytes} (hname : quote ∉ name) (hraw : quote ∉ raw)
    (hstart : name ++ [quote] <+: raw ++ quote :: text) : raw = name := by
  obtain ⟨rest, hrest⟩ := hstart
  have hbefore {bytes : Bytes} (hbytes : quote ∉ bytes) (after : Bytes) :
      (bytes ++ quote :: after).takeWhile (· != quote) = bytes := by
    have hall : ∀ byte ∈ bytes, (byte != quote) := by
      intro byte hbyte
      rw [bne_iff_ne]
      exact fun heq ↦ hbytes (heq ▸ hbyte)
    rw [takeWhile_append_of_pos hall]
    simp
  have heq := congrArg (List.takeWhile (· != quote)) hrest
  rw [append_assoc, singleton_append, hbefore hname, hbefore hraw] at heq
  exact heq.symm

section Passing

variable {name : Bytes} (hname : isName name = true)

include hname

theorem find_quoted_of_ne {raw : Bytes} (hraw : quote ∉ raw) (hne : raw ≠ name) (text : Bytes) :
    find (needle name) (quote :: (raw ++ quote :: text)) = find (needle name) (quote :: text) := by
  have hquote := notMem_name hname (by decide : isNameByte quote = false)
  have hnot : (needle name).isPrefixOf (quote :: (raw ++ quote :: text)) = false := by
    rw [Bool.eq_false_iff, ne_eq, isPrefixOf_iff_prefix]
    intro hstart
    rw [needle, cons_append, prefix_cons_inj] at hstart
    exact hne (eq_of_start hquote hraw hstart)
  rw [find_cons_of_not hnot]
  exact find_append_of_notMem hraw _

theorem find_quote_of_head {text : Bytes} (hhead : ∀ byte ∈ text.head?, isNameByte byte = false) :
    find (needle name) (quote :: text) = find (needle name) text := by
  obtain ⟨first, rest, rfl⟩ := exists_name_cons hname
  have hfirst := nameByte_of_mem hname mem_cons_self
  have hnot : (needle (first :: rest)).isPrefixOf (quote :: text) = false := by
    cases text with
    | nil => rfl
    | cons byte text =>
      have hbyte : first ≠ byte := by
        rintro rfl
        rw [hhead first rfl] at hfirst
        cases hfirst
      simp [needle, List.isPrefixOf, hbyte]
  exact find_cons_of_not hnot

end Passing

def nameless (text : Bytes) : Prop := ∀ byte ∈ text.head?, isNameByte byte = false

theorem nameless_cons {byte : UInt8} (hbyte : isNameByte byte = false) (text : Bytes) :
    nameless (byte :: text) := by
  intro first hfirst
  cases hfirst
  exact hbyte

theorem find_chunk {name chunk : Bytes} (hchunk : quote ∉ chunk) (text : Bytes) :
    find (needle name) (chunk ++ text) = find (needle name) text :=
  find_append_of_notMem hchunk text

end DhcpServer.Web.Json
