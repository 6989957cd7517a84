import DhcpServer.Dhcp.AllowedList

/-!
# The text of the allow-list

The list is stored as one text with a line for each computer, `mac|name|enabled`. `serialize` writes
an entry in its normal form: the address as six pairs of hexadecimal digits, the name without
separators and cut at 20 bytes. A list in normal form is read back as it is.
-/

namespace DhcpServer.Dhcp

open Library List

structure AllowedComputer where
  mac : Bytes
  name : Bytes
  enabled : Bool

namespace AllowedList

def newline : UInt8 := 0x0A
def bar : UInt8 := 0x7C

def kMaxEntries : Nat := 25
def kMaxNameLen : Nat := 20

/-- `isspace` in the C locale. -/
def isSpace (byte : UInt8) : Bool := byte = 0x20 || (0x09 ≤ byte && byte ≤ 0x0D)

def trim (text : Bytes) : Bytes := ((text.dropWhile isSpace).reverse.dropWhile isSpace).reverse

def hexNibble (byte : UInt8) : Option (Fin 16) :=
  if 0x30 ≤ byte ∧ byte ≤ 0x39 then some (Fin.ofNat 16 (byte.toNat - 0x30))
  else if 0x61 ≤ byte ∧ byte ≤ 0x66 then some (Fin.ofNat 16 (byte.toNat - 0x61 + 10))
  else if 0x41 ≤ byte ∧ byte ≤ 0x46 then some (Fin.ofNat 16 (byte.toNat - 0x41 + 10))
  else none

def isMacSeparator (byte : UInt8) : Bool := byte = 0x3A || byte = 0x2D || byte = 0x2E

/-- The digits of an address; `none` is any other character. -/
def macDigits : Bytes → Option (List (Fin 16))
  | [] => some []
  | byte :: rest =>
    if isMacSeparator byte || isSpace byte then macDigits rest
    else
      match hexNibble byte with
      | none => none
      | some digit => (macDigits rest).map (digit :: ·)

def pairByte (high low : Fin 16) : UInt8 := UInt8.ofNat (high.val * 16 + low.val)

def parseMac (text : Bytes) : Option Mac :=
  match macDigits text with
  | some [d0, d1, d2, d3, d4, d5, d6, d7, d8, d9, d10, d11] =>
    some #v[pairByte d0 d1, pairByte d2 d3, pairByte d4 d5, pairByte d6 d7, pairByte d8 d9,
      pairByte d10 d11]
  | _ => none

def hexByte (digit : Fin 16) : UInt8 :=
  if digit.val < 10 then UInt8.ofNat (0x30 + digit.val) else UInt8.ofNat (0x57 + digit.val)

def hexPair (byte : UInt8) : Bytes :=
  [hexByte (Fin.ofNat 16 (byte.toNat / 16)), hexByte (Fin.ofNat 16 (byte.toNat % 16))]

def formatMac (mac : Mac) : Bytes := [0x3A].intercalate (mac.toList.map hexPair)

def normalizeMac (text : Bytes) : Bytes := ((parseMac text).map formatMac).getD []

def storageFieldText (value : Bytes) : Bytes :=
  (trim value).map fun byte ↦ if byte = bar ∨ byte = newline ∨ byte = 0x0D then 0x20 else byte

def sanitizeName (name : Bytes) : Bytes := (storageFieldText name).take kMaxNameLen

def line (mac : Mac) (entry : AllowedComputer) : Bytes :=
  formatMac mac ++ bar :: (sanitizeName entry.name ++ [bar, if entry.enabled then 0x31 else 0x30])

def serialize (list : List AllowedComputer) : Bytes :=
  [newline].intercalate ((list.filterMap fun entry ↦
    (parseMac entry.mac).map fun mac ↦ line mac entry).take kMaxEntries)

/-- The text up to a bar, and the text behind it if there is one. -/
def cut (text : Bytes) : Bytes × Option Bytes :=
  (text.takeWhile (· ≠ bar), (text.dropWhile (· ≠ bar)).tail?)

def parseEntry (text : Bytes) : AllowedComputer :=
  match cut text with
  | (mac, none) => ⟨normalizeMac mac, [], true⟩
  | (mac, some rest) =>
    match cut rest with
    | (name, none) => ⟨normalizeMac mac, sanitizeName name, true⟩
    | (name, some enabled) =>
      ⟨normalizeMac mac, sanitizeName name, trim enabled ≠ [0x30]⟩

def parseLine (text : Bytes) : Option AllowedComputer :=
  let entry := parseEntry (trim text)
  if (trim text).isEmpty || entry.mac.isEmpty then none else some entry

def parse (text : Bytes) : List AllowedComputer :=
  ((text.splitOn newline).filterMap parseLine).take kMaxEntries

theorem macDigits_hexByte (digit : Fin 16) (rest : Bytes) :
    macDigits (hexByte digit :: rest) = (macDigits rest).map (digit :: ·) := by
  have hdigit : (isMacSeparator (hexByte digit) || isSpace (hexByte digit)) = false ∧
      hexNibble (hexByte digit) = some digit := by
    revert digit
    decide
  rw [macDigits, hdigit.1, hdigit.2]
  rfl

theorem macDigits_colon (rest : Bytes) : macDigits (0x3A :: rest) = macDigits rest := rfl

theorem pairByte_nibbles (byte : UInt8) :
    pairByte (Fin.ofNat 16 (byte.toNat / 16)) (Fin.ofNat 16 (byte.toNat % 16)) = byte := by
  have hbyte : byte.toNat < 256 := byte.toNat_lt
  have hvalue : byte.toNat / 16 % 16 * 16 + byte.toNat % 16 % 16 = byte.toNat := by omega
  simp only [pairByte, Fin.val_ofNat, hvalue, UInt8.ofNat_toNat]

theorem exists_formatMac (mac : Mac) : ∃ first second third fourth fifth sixth,
    mac = #v[first, second, third, fourth, fifth, sixth] ∧
      formatMac mac = hexPair first ++ 0x3A :: (hexPair second ++ 0x3A :: (hexPair third ++
        0x3A :: (hexPair fourth ++ 0x3A :: (hexPair fifth ++ 0x3A :: hexPair sixth)))) := by
  obtain ⟨⟨bytes⟩, hbytes⟩ := mac
  match bytes, hbytes with
  | [first, second, third, fourth, fifth, sixth], _ =>
    exact ⟨first, second, third, fourth, fifth, sixth, rfl, rfl⟩

theorem parseMac_formatMac (mac : Mac) : parseMac (formatMac mac) = some mac := by
  obtain ⟨first, second, third, fourth, fifth, sixth, rfl, hformat⟩ := exists_formatMac mac
  have hdigits : macDigits (formatMac #v[first, second, third, fourth, fifth, sixth]) = some
      ([first, second, third, fourth, fifth, sixth].flatMap fun byte ↦
        [Fin.ofNat 16 (byte.toNat / 16), Fin.ofNat 16 (byte.toNat % 16)]) := by
    rw [hformat]
    simp only [hexPair, cons_append, nil_append, macDigits_hexByte, macDigits_colon]
    rfl
  rw [parseMac, hdigits]
  simp only [flatMap_cons, flatMap_nil, cons_append, nil_append, pairByte_nibbles]

theorem normalizeMac_formatMac (mac : Mac) : normalizeMac (formatMac mac) = formatMac mac := by
  rw [normalizeMac, parseMac_formatMac]
  rfl

def isMacByte (byte : UInt8) : Bool := byte = 0x3A || (hexNibble byte).isSome

theorem isMacByte_of_mem {mac : Mac} {byte : UInt8} (hbyte : byte ∈ formatMac mac) :
    isMacByte byte := by
  have hdigit (digit : Fin 16) : isMacByte (hexByte digit) := by
    revert digit
    decide
  have hpair {other : UInt8} (hother : byte ∈ hexPair other) : isMacByte byte := by
    simp only [hexPair, mem_cons, not_mem_nil, or_false] at hother
    rcases hother with rfl | rfl
    · exact hdigit _
    · exact hdigit _
  obtain ⟨first, second, third, fourth, fifth, sixth, -, hformat⟩ := exists_formatMac mac
  rw [hformat] at hbyte
  simp only [mem_append, mem_cons] at hbyte
  rcases hbyte with h | rfl | h | rfl | h | rfl | h | rfl | h | rfl | h
  all_goals first
    | exact hpair h
    | rfl

theorem notMem_storageFieldText {byte : UInt8} (hbyte : byte = bar ∨ byte = newline) (value : Bytes) :
    byte ∉ storageFieldText value := by
  intro hmem
  obtain ⟨other, -, hother⟩ := mem_map.mp hmem
  split at hother
  · rcases hbyte with rfl | rfl <;> cases hother
  · rename_i hne
    rw [hother] at hne
    rcases hbyte with rfl | rfl
    · exact hne (.inl rfl)
    · exact hne (.inr (.inl rfl))

theorem notMem_sanitizeName {byte : UInt8} (hbyte : byte = bar ∨ byte = newline) (name : Bytes) :
    byte ∉ sanitizeName name :=
  fun hmem ↦ notMem_storageFieldText hbyte name (mem_of_mem_take hmem)

theorem cut_append {text : Bytes} (htext : bar ∉ text) (rest : Bytes) :
    cut (text ++ bar :: rest) = (text, some rest) := by
  have hkeep : ∀ byte ∈ text, decide (byte ≠ bar) :=
    fun byte hbyte ↦ decide_eq_true fun heq ↦ htext (heq ▸ hbyte)
  rw [cut, takeWhile_append_of_pos hkeep, dropWhile_append_of_pos hkeep]
  simp

theorem trim_of_ends {first last : UInt8} {middle : Bytes} (hfirst : isSpace first = false)
    (hlast : isSpace last = false) : trim (first :: (middle ++ [last])) = first :: (middle ++ [last]) := by
  have hreverse : (first :: (middle ++ [last])).reverse = last :: (middle.reverse ++ [first]) := by
    simp
  have hdrop : (first :: (middle ++ [last])).dropWhile isSpace = first :: (middle ++ [last]) := by
    simp [hfirst]
  have hback : (last :: (middle.reverse ++ [first])).dropWhile isSpace =
      last :: (middle.reverse ++ [first]) := by
    simp [hlast]
  rw [trim, hdrop, hreverse, hback, ← hreverse, reverse_reverse]

theorem bar_notMem_formatMac (mac : Mac) : bar ∉ formatMac mac :=
  fun hmem ↦ absurd (isMacByte_of_mem hmem) (by decide)

theorem exists_formatMac_cons (mac : Mac) :
    ∃ first rest, formatMac mac = first :: rest ∧ isSpace first = false := by
  obtain ⟨byte, _, _, _, _, _, -, hformat⟩ := exists_formatMac mac
  have hdigit (digit : Fin 16) : isSpace (hexByte digit) = false := by
    revert digit
    decide
  exact ⟨_, _, hformat, hdigit _⟩

/-- What a line is read as: the name is cleaned a second time. -/
def readBack (mac : Mac) (entry : AllowedComputer) : AllowedComputer :=
  ⟨formatMac mac, sanitizeName (sanitizeName entry.name), entry.enabled⟩

theorem parseLine_line (mac : Mac) (entry : AllowedComputer) :
    parseLine (line mac entry) = some (readBack mac entry) := by
  obtain ⟨first, rest, hformat, hfirst⟩ := exists_formatMac_cons mac
  have hlast : isSpace (if entry.enabled then 0x31 else 0x30) = false := by
    cases entry.enabled <;> decide
  have hshape : line mac entry = first :: ((rest ++ bar :: (sanitizeName entry.name ++ [bar])) ++
      [if entry.enabled then 0x31 else 0x30]) := by
    simp [line, hformat]
  have htrim : trim (line mac entry) = line mac entry := by
    rw [hshape]
    exact trim_of_ends hfirst hlast
  have henabled : decide (trim [if entry.enabled then 0x31 else 0x30] ≠ [0x30]) = entry.enabled := by
    cases entry.enabled <;> decide
  have hparse : parseEntry (line mac entry) = readBack mac entry := by
    rw [parseEntry, line, cut_append (bar_notMem_formatMac mac)]
    dsimp only
    rw [cut_append (notMem_sanitizeName (.inl rfl) _)]
    dsimp only
    rw [henabled, normalizeMac_formatMac, readBack]
  have hfilled : (line mac entry).isEmpty = false ∧ (readBack mac entry).mac.isEmpty = false := by
    rw [line, readBack, hformat]
    exact ⟨rfl, rfl⟩
  rw [parseLine, htrim, hparse, hfilled.1, hfilled.2]
  rfl

theorem newline_notMem_line (mac : Mac) (entry : AllowedComputer) : newline ∉ line mac entry := by
  intro hmem
  simp only [line, mem_append, mem_cons, not_mem_nil, or_false] at hmem
  rcases hmem with hformat | hbar | hname | hbar | hflag
  · exact absurd (isMacByte_of_mem hformat) (by decide)
  · exact absurd hbar (by decide)
  · exact notMem_sanitizeName (.inr rfl) _ hname
  · exact absurd hbar (by decide)
  · cases henabled : entry.enabled <;> simp [henabled, newline] at hflag

def written (list : List AllowedComputer) : List (Mac × AllowedComputer) :=
  (list.filterMap fun entry ↦ (parseMac entry.mac).map fun mac ↦ (mac, entry)).take kMaxEntries

theorem serialize_eq (list : List AllowedComputer) :
    serialize list = [newline].intercalate ((written list).map fun entry ↦ line entry.1 entry.2) := by
  rw [serialize, written, map_take, map_filterMap]
  simp only [Option.map_map]
  rfl

theorem length_written_le (list : List AllowedComputer) : (written list).length ≤ kMaxEntries :=
  length_take_le _ _

theorem parse_serialize_eq (list : List AllowedComputer) :
    parse (serialize list) = (written list).map fun entry ↦ readBack entry.1 entry.2 := by
  have hlines : ((written list).map fun entry ↦ line entry.1 entry.2).filterMap parseLine =
      (written list).map fun entry ↦ readBack entry.1 entry.2 := by
    rw [filterMap_map]
    simp only [Function.comp_def, parseLine_line, filterMap_eq_map']
  have hfree : ∀ text ∈ (written list).map fun entry ↦ line entry.1 entry.2, newline ∉ text := by
    intro text htext
    obtain ⟨entry, -, rfl⟩ := mem_map.mp htext
    exact newline_notMem_line _ _
  have hcount := length_written_le list
  rw [serialize_eq, parse]
  cases hwritten : written list with
  | nil => rfl
  | cons first rest =>
    rw [hwritten] at hlines hfree hcount
    rw [splitOn_intercalate newline hfree (cons_ne_nil _ _), hlines]
    exact take_of_length_le (by simpa using hcount)

theorem length_line_le (mac : Mac) (entry : AllowedComputer) : (line mac entry).length ≤ 40 := by
  have hmac : (formatMac mac).length = 17 := by
    obtain ⟨_, _, _, _, _, _, -, hformat⟩ := exists_formatMac mac
    rw [hformat]
    rfl
  have hname : (sanitizeName entry.name).length ≤ 20 := length_take_le _ _
  simp only [line, length_append, length_cons, length_nil, hmac]
  omega

theorem length_serialize_le (list : List AllowedComputer) : (serialize list).length ≤ 1024 := by
  have hjoined : ∀ lines : List Bytes, (∀ text ∈ lines, text.length ≤ 40) →
      ([newline].intercalate lines).length ≤ 41 * lines.length - 1 := by
    intro lines
    induction lines with
    | nil => exact fun _ ↦ Nat.zero_le _
    | cons first lines ih =>
      intro hshort
      obtain ⟨hfirst, hlines⟩ := forall_mem_cons.mp hshort
      have hrest := ih hlines
      cases lines with
      | nil => simpa using hfirst
      | cons second lines =>
        rw [intercalate_cons_of_ne_nil (cons_ne_nil _ _)]
        simp only [length_append, length_cons, length_nil] at hrest ⊢
        omega
  have hlines : ∀ text ∈ (list.filterMap fun entry ↦
      (parseMac entry.mac).map fun mac ↦ line mac entry).take kMaxEntries, text.length ≤ 40 := by
    intro text htext
    obtain ⟨entry, -, hentry⟩ := mem_filterMap.mp (mem_of_mem_take htext)
    obtain ⟨mac, -, rfl⟩ := Option.map_eq_some_iff.mp hentry
    exact length_line_le mac entry
  have hcount := length_take_le kMaxEntries (list.filterMap fun entry ↦
    (parseMac entry.mac).map fun mac ↦ line mac entry)
  have htotal := hjoined _ hlines
  rw [serialize]
  simp only [kMaxEntries] at hcount htotal ⊢
  omega

theorem exists_mac_of_mem_parse {text : Bytes} {entry : AllowedComputer} (hentry : entry ∈ parse text) :
    ∃ mac, entry.mac = formatMac mac := by
  obtain ⟨part, -, hpart⟩ := mem_filterMap.mp (mem_of_mem_take hentry)
  have hnormalized : ∃ raw, (parseEntry (trim part)).mac = normalizeMac raw := by
    rw [parseEntry]
    split
    · exact ⟨_, rfl⟩
    · split <;> exact ⟨_, rfl⟩
  obtain ⟨raw, hraw⟩ := hnormalized
  rw [parseLine] at hpart
  split at hpart
  · cases hpart
  · rename_i hkept
    cases hpart
    rw [hraw] at hkept ⊢
    rw [normalizeMac] at hkept ⊢
    cases hmac : parseMac raw with
    | none => simp [hmac] at hkept
    | some mac => exact ⟨mac, rfl⟩

end AllowedList

end DhcpServer.Dhcp
