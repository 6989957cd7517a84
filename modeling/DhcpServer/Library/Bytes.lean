import Mathlib.Algebra.GroupWithZero.Nat
import Mathlib.Data.List.TakeWhile
import Mathlib.Tactic.Common

/-!
# Bytes, C strings and little-endian words

A `std::string` is a list of bytes of any value. What a C function sees of it through `c_str()`
is the part before the first zero byte; that part is what `strcmp`, `strncpy` and every hash over
a `const char*` work on.
-/

namespace DhcpServer.Library

open List

abbrev Bytes := List UInt8

/-- A receive buffer or an array of the source, read by index. -/
abbrev Buffer := Nat → UInt8

/-- The bytes `buffer[start .. start + count)`. -/
def slice (buffer : Buffer) (start count : Nat) : Bytes := (List.range count).map fun i ↦ buffer (start + i)

section Slice

variable {buffer : Buffer} {start count skip : Nat}

theorem length_slice : (slice buffer start count).length = count := by simp [slice]

theorem slice_succ : slice buffer start (count + 1) = buffer start :: slice buffer (start + 1) count := by
  simp [slice, range_succ_eq_map, Function.comp_def, Nat.add_comm, Nat.add_left_comm]

theorem drop_slice : (slice buffer start count).drop skip = slice buffer (start + skip) (count - skip) := by
  apply ext_getElem
  · simp [slice]
  · intro i _ _
    simp [slice, Nat.add_assoc]

end Slice

def ascii (text : String) : Bytes := text.toList.map fun character ↦ UInt8.ofNat character.toNat

/-- What a C function sees of a string: the bytes before the first zero byte. -/
def cString (text : Bytes) : Bytes := text.takeWhile fun byte ↦ byte != 0

/-- `strncpy` of a string into a zeroed array with room for `room` bytes and the terminator. -/
def strncpy (room : Nat) (text : Bytes) : Bytes := (cString text).take room

theorem cString_strncpy (room : Nat) (text : Bytes) : cString (strncpy room text) = strncpy room text := by
  apply takeWhile_eq_self_iff.mpr
  intro byte hbyte
  have hbelow : byte ∈ cString text := mem_of_mem_take hbyte
  exact mem_takeWhile_imp (p := fun byte ↦ byte != 0) hbelow

theorem cString_eq_self {text : Bytes} (hzero : 0 ∉ text) : cString text = text := by
  apply takeWhile_eq_self_iff.mpr
  intro byte hbyte
  simpa using fun heq : byte = 0 ↦ hzero (heq ▸ hbyte)

theorem strncpy_eq_self {room : Nat} {text : Bytes} (hzero : 0 ∉ text) (hroom : text.length ≤ room) :
    strncpy room text = text := by
  rw [strncpy, cString_eq_self hzero, take_of_length_le hroom]

/-- `tolower` in the C locale. -/
def toLower (byte : UInt8) : UInt8 := if 65 ≤ byte ∧ byte ≤ 90 then byte + 32 else byte

/-- Four bytes copied into a `uint32_t` on a little-endian machine. -/
def readU32 (buffer : Buffer) (offset : Nat) : UInt32 :=
  (buffer offset).toUInt32 ||| (buffer (offset + 1)).toUInt32 <<< 8 |||
    (buffer (offset + 2)).toUInt32 <<< 16 ||| (buffer (offset + 3)).toUInt32 <<< 24

def SameBelow (len : Nat) (left right : Buffer) : Prop := ∀ i < len, left i = right i

section SameBelow

variable {len start count : Nat} {left right : Buffer}

section

variable (hsame : SameBelow len left right)
include hsame

theorem SameBelow.mono {shorter : Nat} (hle : shorter ≤ len) :
    SameBelow shorter left right :=
  fun i hi ↦ hsame i (Nat.lt_of_lt_of_le hi hle)

theorem SameBelow.shift (start : Nat) :
    SameBelow (len - start) (fun i ↦ left (start + i)) fun i ↦ right (start + i) :=
  fun i hi ↦ hsame (start + i) (by omega)

theorem SameBelow.slice_eq (hend : start + count ≤ len) :
    slice left start count = slice right start count := by
  apply map_congr_left
  intro i hi
  have hlt : i < count := mem_range.mp hi
  exact hsame (start + i) (by omega)

theorem SameBelow.readU32_eq (hend : start + 4 ≤ len) :
    readU32 left start = readU32 right start := by
  rw [readU32, readU32, hsame start (by omega), hsame (start + 1) (by omega),
    hsame (start + 2) (by omega), hsame (start + 3) (by omega)]

end

end SameBelow

/-- The four bytes a `uint32_t` occupies in memory on a little-endian machine. -/
def wordBytes (word : UInt32) : Bytes :=
  [word.toUInt8, (word >>> 8).toUInt8, (word >>> 16).toUInt8, (word >>> 24).toUInt8]

theorem or_shiftLeft {low places : Nat} (high : Nat) (hlow : low < 1 <<< places) :
    low ||| high <<< places = low + high <<< places := by
  rw [Nat.one_shiftLeft] at hlow
  rw [Nat.or_comm, ← Nat.shiftLeft_add_eq_or_of_lt hlow, Nat.add_comm]

theorem toNat_or_bytes (first second third fourth : UInt8) :
    (first.toUInt32 ||| second.toUInt32 <<< 8 ||| third.toUInt32 <<< 16 |||
      fourth.toUInt32 <<< 24).toNat =
      first.toNat + second.toNat * 256 + third.toNat * 65536 + fourth.toNat * 16777216 := by
  have hfirst : first.toNat < 1 <<< 8 := first.toNat_lt
  have hsecond := second.toNat_lt
  have hthird := third.toNat_lt
  have hfourth := fourth.toNat_lt
  have hplace (byte : UInt8) (places : UInt32) (hfits : byte.toNat <<< places.toNat < 4294967296)
      (hplaces : places.toNat < 32) :
      (byte.toUInt32 <<< places).toNat = byte.toNat <<< places.toNat := by
    rw [UInt32.toNat_shiftLeft, UInt8.toNat_toUInt32, Nat.mod_eq_of_lt hplaces]
    exact Nat.mod_eq_of_lt hfits
  have htwo : second.toNat <<< 8 = second.toNat * 256 := Nat.shiftLeft_eq _ _
  have hthree : third.toNat <<< 16 = third.toNat * 65536 := Nat.shiftLeft_eq _ _
  have hfour : fourth.toNat <<< 24 = fourth.toNat * 16777216 := Nat.shiftLeft_eq _ _
  have hlow : first.toNat + second.toNat <<< 8 < 1 <<< 16 := by
    omega
  have hhigh : first.toNat + second.toNat <<< 8 + third.toNat <<< 16 < 1 <<< 24 := by
    omega
  rw [UInt32.toNat_or, UInt32.toNat_or, UInt32.toNat_or, UInt8.toNat_toUInt32,
    hplace second 8 (by change second.toNat <<< 8 < _; omega) (by decide),
    hplace third 16 (by change third.toNat <<< 16 < _; omega) (by decide),
    hplace fourth 24 (by change fourth.toNat <<< 24 < _; omega) (by decide)]
  change first.toNat ||| second.toNat <<< 8 ||| third.toNat <<< 16 ||| fourth.toNat <<< 24 = _
  rw [or_shiftLeft _ hfirst, or_shiftLeft _ hlow, or_shiftLeft _ hhigh, htwo, hthree, hfour]

theorem readU32_wordBytes (word : UInt32) (rest : Bytes) :
    readU32 (fun i ↦ (wordBytes word ++ rest).getD i 0) 0 = word := by
  have hword : word.toNat < 4294967296 := word.toNat_lt
  apply UInt32.toNat_inj.mp
  have hbytes := toNat_or_bytes word.toUInt8 (word >>> 8).toUInt8 (word >>> 16).toUInt8
    (word >>> 24).toUInt8
  refine hbytes.trans ?_
  simp only [UInt32.toNat_toUInt8, UInt32.toNat_shiftRight, Nat.shiftRight_eq_div_pow]
  change word.toNat % 256 + word.toNat / 256 % 256 * 256 + word.toNat / 65536 % 256 * 65536 +
    word.toNat / 16777216 % 256 * 16777216 = word.toNat
  omega

theorem readU32_append (bytes rest : Bytes) (offset : Nat) :
    readU32 (fun i ↦ (bytes ++ rest).getD i 0) (bytes.length + offset) =
      readU32 (fun i ↦ rest.getD i 0) offset := by
  have hshift (i : Nat) : (bytes ++ rest).getD (bytes.length + i) 0 = rest.getD i 0 := by
    rw [getD_eq_getElem?_getD, getElem?_append_right (Nat.le_add_right _ _),
      Nat.add_sub_cancel_left, ← getD_eq_getElem?_getD]
  simp only [readU32, Nat.add_assoc, hshift]

theorem readU32_flatMap_wordBytes {words : List UInt32} {place : Nat} {word : UInt32}
    (hword : words[place]? = some word) :
    readU32 (fun i ↦ (words.flatMap wordBytes).getD i 0) (4 * place) = word := by
  induction words generalizing place with
  | nil => cases hword
  | cons first words ih =>
    rw [flatMap_cons]
    cases place with
    | zero =>
      obtain rfl := Option.some.inj hword
      exact readU32_wordBytes first _
    | succ place =>
      have hrest := ih hword
      have hplace : 4 * (place + 1) = (wordBytes first).length + 4 * place := by
        change _ = 4 + 4 * place
        omega
      rw [hplace, readU32_append, hrest]

theorem length_flatMap_wordBytes (words : List UInt32) :
    (words.flatMap wordBytes).length = 4 * words.length := by
  induction words with
  | nil => rfl
  | cons word words ih =>
    have hword : (wordBytes word).length = 4 := rfl
    rw [flatMap_cons, length_append, ih, hword, length_cons]
    omega

theorem eq_of_readU32_eq {left right : Buffer} {offset : Nat}
    (hword : readU32 left offset = readU32 right offset) {place : Nat} (hplace : place < 4) :
    left (offset + place) = right (offset + place) := by
  have hvalue := congrArg UInt32.toNat hword
  rw [readU32, readU32, toNat_or_bytes, toNat_or_bytes] at hvalue
  have hleft (i : Nat) : (left i).toNat < 256 := (left i).toNat_lt
  have hright (i : Nat) : (right i).toNat < 256 := (right i).toNat_lt
  have hleft₀ := hleft offset
  have hleft₁ := hleft (offset + 1)
  have hleft₂ := hleft (offset + 2)
  have hright₀ := hright offset
  have hright₁ := hright (offset + 1)
  have hright₂ := hright (offset + 2)
  apply UInt8.toNat_inj.mp
  match place, hplace with
  | 0, _ =>
    change (left offset).toNat = (right offset).toNat
    omega
  | 1, _ => omega
  | 2, _ => omega
  | 3, _ => omega

theorem wordBytes_readU32 {bytes : Bytes} (hlength : bytes.length = 4) :
    wordBytes (readU32 (fun i ↦ bytes.getD i 0) 0) = bytes := by
  have hread := readU32_wordBytes (readU32 (fun i ↦ bytes.getD i 0) 0) []
  rw [append_nil] at hread
  have hlengths : (wordBytes (readU32 (fun i ↦ bytes.getD i 0) 0)).length = bytes.length := hlength.symm
  apply ext_getElem hlengths
  intro place hword hplace
  have hsame := eq_of_readU32_eq hread (show place < 4 from hlength ▸ hplace)
  rw [Nat.zero_add] at hsame
  have hvalue (text : Bytes) (hinside : place < text.length) : text.getD place 0 = text[place] := by
    simp [hinside]
  rwa [hvalue _ hword, hvalue _ hplace] at hsame

theorem or_halves (value : UInt64) :
    value.toUInt32.toUInt64 ||| (value >>> 32).toUInt32.toUInt64 <<< 32 = value := by
  have hvalue : value.toNat < 18446744073709551616 := value.toNat_lt
  have hlow : value.toNat % 4294967296 < 1 <<< 32 := Nat.mod_lt _ (by decide)
  have hhigh : (value.toNat / 4294967296 % 4294967296) <<< 32 =
      value.toNat / 4294967296 % 4294967296 * 4294967296 := Nat.shiftLeft_eq _ _
  have hfits : (value.toNat / 4294967296 % 4294967296) <<< 32 % 18446744073709551616 =
      (value.toNat / 4294967296 % 4294967296) <<< 32 := Nat.mod_eq_of_lt (by omega)
  apply UInt64.toNat_inj.mp
  simp only [UInt64.toNat_or, UInt64.toNat_shiftLeft, UInt32.toNat_toUInt64, UInt64.toNat_toUInt32,
    UInt64.toNat_shiftRight, Nat.shiftRight_eq_div_pow]
  change value.toNat % 4294967296 ||| (value.toNat / 4294967296 % 4294967296) <<< 32 %
    18446744073709551616 = value.toNat
  rw [hfits, or_shiftLeft _ hlow, hhigh]
  omega

theorem or_halfBytes (half : UInt16) :
    half.toUInt8.toUInt16 ||| (half >>> 8).toUInt8.toUInt16 <<< 8 = half := by
  have hhalf : half.toNat < 65536 := half.toNat_lt
  have hlow : half.toNat % 256 < 1 <<< 8 := Nat.mod_lt _ (by decide)
  have hhigh : (half.toNat / 256 % 256) <<< 8 = half.toNat / 256 % 256 * 256 := Nat.shiftLeft_eq _ _
  have hfits : (half.toNat / 256 % 256) <<< 8 % 65536 = (half.toNat / 256 % 256) <<< 8 :=
    Nat.mod_eq_of_lt (by omega)
  apply UInt16.toNat_inj.mp
  simp only [UInt16.toNat_or, UInt16.toNat_shiftLeft, UInt8.toNat_toUInt16, UInt16.toNat_toUInt8,
    UInt16.toNat_shiftRight, Nat.shiftRight_eq_div_pow]
  change half.toNat % 256 ||| (half.toNat / 256 % 256) <<< 8 % 65536 = half.toNat
  rw [hfits, or_shiftLeft _ hlow, hhigh]
  omega

theorem halfBytes_or (low high : UInt8) : (low.toUInt16 ||| high.toUInt16 <<< 8).toUInt8 = low ∧
      ((low.toUInt16 ||| high.toUInt16 <<< 8) >>> 8).toUInt8 = high := by
  have hlow : low.toNat < 1 <<< 8 := low.toNat_lt
  have hhigh : high.toNat < 256 := high.toNat_lt
  have hshift : high.toNat <<< 8 = high.toNat * 256 := Nat.shiftLeft_eq _ _
  have hvalue : (low.toUInt16 ||| high.toUInt16 <<< 8).toNat = low.toNat + high.toNat * 256 := by
    simp only [UInt16.toNat_or, UInt16.toNat_shiftLeft, UInt8.toNat_toUInt16]
    change low.toNat ||| high.toNat <<< 8 % 65536 = _
    rw [Nat.mod_eq_of_lt (by omega), or_shiftLeft _ hlow, hshift]
  constructor
  · apply UInt8.toNat_inj.mp
    rw [UInt16.toNat_toUInt8, hvalue]
    omega
  · apply UInt8.toNat_inj.mp
    rw [UInt16.toNat_toUInt8, UInt16.toNat_shiftRight, hvalue]
    change (low.toNat + high.toNat * 256) >>> 8 % 256 = _
    rw [Nat.shiftRight_eq_div_pow]
    omega

/-- `ntohl` and `htonl` on a little-endian machine. -/
def byteSwap (word : UInt32) : UInt32 :=
  word <<< 24 ||| (word <<< 8 &&& (0xFF0000 : UInt32)) |||
    (word >>> 8 &&& (0xFF00 : UInt32)) ||| word >>> 24

theorem and_byteMask (value place : Nat) :
    value &&& 255 <<< place = value / 2 ^ place % 256 * 2 ^ place := by
  have hshift : value &&& 255 <<< place = ((value >>> place) &&& 255) <<< place := by
    apply Nat.eq_of_testBit_eq
    intro i
    rw [Nat.testBit_and, Nat.testBit_shiftLeft, Nat.testBit_shiftLeft, Nat.testBit_and,
      Nat.testBit_shiftRight]
    by_cases hplace : place ≤ i
    · simp [hplace, Nat.add_sub_cancel' hplace]
    · simp [hplace]
  rw [hshift, Nat.shiftLeft_eq, Nat.shiftRight_eq_div_pow]
  exact congrArg (· * 2 ^ place) (Nat.and_two_pow_sub_one_eq_mod _ 8)

theorem or_reverse (first second third fourth : UInt32) :
    first ||| second ||| third ||| fourth = fourth ||| third ||| second ||| first := by
  rw [UInt32.or_comm, UInt32.or_comm _ third, UInt32.or_comm first, UInt32.or_assoc, UInt32.or_assoc]

theorem byteSwap_eq_bytes (word : UInt32) :
    byteSwap word = (word >>> 24).toUInt8.toUInt32 ||| (word >>> 16).toUInt8.toUInt32 <<< 8 |||
      (word >>> 8).toUInt8.toUInt32 <<< 16 ||| word.toUInt8.toUInt32 <<< 24 := by
  have hword := word.toNat_lt
  have hfirst : word <<< 24 = word.toUInt8.toUInt32 <<< 24 := by
    apply UInt32.toNat_inj.mp
    simp only [UInt32.toNat_shiftLeft, UInt8.toNat_toUInt32, UInt32.toNat_toUInt8, Nat.shiftLeft_eq]
    change word.toNat * 16777216 % 4294967296 = word.toNat % 256 * 16777216 % 4294967296
    omega
  have hsecond : word <<< 8 &&& (0xFF0000 : UInt32) = (word >>> 8).toUInt8.toUInt32 <<< 16 := by
    apply UInt32.toNat_inj.mp
    simp only [UInt32.toNat_and, UInt32.toNat_shiftLeft, UInt8.toNat_toUInt32, UInt32.toNat_toUInt8,
      UInt32.toNat_shiftRight, Nat.shiftLeft_eq, Nat.shiftRight_eq_div_pow]
    refine (and_byteMask _ 16).trans ?_
    change word.toNat * 256 % 4294967296 / 65536 % 256 * 65536 =
      word.toNat / 256 % 256 * 65536 % 4294967296
    omega
  have hthird : word >>> 8 &&& (0xFF00 : UInt32) = (word >>> 16).toUInt8.toUInt32 <<< 8 := by
    apply UInt32.toNat_inj.mp
    simp only [UInt32.toNat_and, UInt32.toNat_shiftLeft, UInt8.toNat_toUInt32, UInt32.toNat_toUInt8,
      UInt32.toNat_shiftRight, Nat.shiftLeft_eq, Nat.shiftRight_eq_div_pow]
    refine (and_byteMask _ 8).trans ?_
    change word.toNat / 256 / 256 % 256 * 256 = word.toNat / 65536 % 256 * 256 % 4294967296
    omega
  have hfourth : word >>> 24 = (word >>> 24).toUInt8.toUInt32 := by
    apply UInt32.toNat_inj.mp
    simp only [UInt8.toNat_toUInt32, UInt32.toNat_toUInt8, UInt32.toNat_shiftRight,
      Nat.shiftRight_eq_div_pow]
    change word.toNat / 16777216 = word.toNat / 16777216 % 256
    omega
  rw [byteSwap, hfirst, hsecond, hthird, ← hfourth, or_reverse]

theorem exists_octets (word : UInt32) : ∃ first second third fourth : Nat,
    first < 256 ∧ second < 256 ∧ third < 256 ∧ fourth < 256 ∧
      word.toNat = first + second * 256 + third * 65536 + fourth * 16777216 ∧
      (byteSwap word).toNat = fourth + third * 256 + second * 65536 + first * 16777216 := by
  have hword := word.toNat_lt
  refine ⟨word.toNat % 256, word.toNat / 256 % 256, word.toNat / 65536 % 256, word.toNat / 16777216,
    by omega, by omega, by omega, by omega, by omega, ?_⟩
  rw [byteSwap_eq_bytes, toNat_or_bytes]
  simp only [UInt32.toNat_toUInt8, UInt32.toNat_shiftRight, Nat.shiftRight_eq_div_pow]
  change word.toNat / 16777216 % 256 + word.toNat / 65536 % 256 * 256 +
    word.toNat / 256 % 256 * 65536 + word.toNat % 256 * 16777216 = _
  omega

@[simp]
theorem byteSwap_byteSwap (word : UInt32) : byteSwap (byteSwap word) = word := by
  obtain ⟨first, second, third, fourth, h1, h2, h3, h4, hword, hswapped⟩ := exists_octets word
  obtain ⟨first', second', third', fourth', h1', h2', h3', h4', hswapped', hback⟩ :=
    exists_octets (byteSwap word)
  obtain rfl : first' = fourth := by omega
  obtain rfl : second' = third := by omega
  obtain rfl : third' = second := by omega
  apply UInt32.toNat_inj.mp
  omega

theorem byteSwap_inj {left right : UInt32} : byteSwap left = byteSwap right ↔ left = right := by
  constructor
  · intro hsame
    rw [← byteSwap_byteSwap left, hsame, byteSwap_byteSwap]
  · intro hsame
    rw [hsame]

theorem byteSwap_eq_zero_iff {word : UInt32} : byteSwap word = 0 ↔ word = 0 := by
  change byteSwap word = byteSwap 0 ↔ word = 0
  exact byteSwap_inj

end DhcpServer.Library
