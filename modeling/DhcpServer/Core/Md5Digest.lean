import DhcpServer.Core.Md5
import DhcpServer.Library.Blocks
import DhcpServer.Library.Rfc1321
import DhcpServer.Library.SineBounds

/-!
# The digest of a stream

However a message is cut into calls of `Md5::update`, and wherever `Md5::hex` is called between them,
`Md5::hex` answers with the digest of RFC 1321.
-/

namespace DhcpServer.Core.Md5

open Library List
open Library.Rfc1321 (Registers Quarter quarters operation F G H I T)

def Words.registers (words : Words) : Registers := ⟨words.a, words.b, words.c, words.d⟩

def roundFunction (i : Nat) : UInt32 → UInt32 → UInt32 → UInt32 :=
  if i < 16 then F else if i < 32 then G else if i < 48 then H else I

def roundWord (i : Nat) : Nat :=
  if i < 16 then i else if i < 32 then (5 * i + 1) % 16 else if i < 48 then (3 * i + 5) % 16 else 7 * i % 16

def roundShift (i : Nat) : Nat := (kShift.getD i 0).toNat

def quarterAt (place : Nat) : Quarter where
  function := roundFunction (4 * place)
  words :=
    (roundWord (4 * place), roundWord (4 * place + 1), roundWord (4 * place + 2), roundWord (4 * place + 3))
  shifts :=
    (roundShift (4 * place), roundShift (4 * place + 1), roundShift (4 * place + 2),
      roundShift (4 * place + 3))
  first := 4 * place + 1

theorem quarters_eq : quarters = (List.range 16).map quarterAt := rfl

theorem roundShift_bounds : ∀ i < 64, 0 < roundShift i ∧ roundShift i < 32 := by decide

section Rounds

variable {i j place : Nat} {words : Words} {m X : Nat → UInt32}

theorem roundWord_lt (i : Nat) : roundWord i < 16 := by
  unfold roundWord
  split_ifs <;> omega

theorem roundFunction_add (hj : j < 4) : roundFunction (4 * place + j) = roundFunction (4 * place) := by
  unfold roundFunction
  split_ifs <;> first | rfl | omega

theorem roundInput_eq (i : Nat) (words : Words) :
    roundInput i words = (roundFunction i words.b words.c words.d, roundWord i) := by
  unfold roundInput roundFunction roundWord
  split_ifs
  · rfl
  · rw [G, UInt32.and_comm words.d, UInt32.and_comm _ words.c]
  · rfl
  · rfl

theorem rotl_eq {x n : UInt32} (hpos : 0 < n.toNat) (hlt : n.toNat < 32) :
    rotl x n = Rfc1321.rotate x n.toNat := by
  have hrest : (32 - n).toNat = 32 - n.toNat := by
    rw [UInt32.toNat_sub_of_le _ _ (UInt32.le_iff_toNat_le.mpr hlt.le)]
    rfl
  have hleft : x.toBitVec <<< (n.toBitVec % 32) = x.toBitVec <<< n.toNat := by
    rw [BitVec.shiftLeft_eq', BitVec.toNat_umod, UInt32.toNat_toBitVec]
    exact congrArg (x.toBitVec <<< ·) (Nat.mod_eq_of_lt hlt)
  have hright : x.toBitVec >>> ((32 - n).toBitVec % 32) = x.toBitVec >>> (32 - n.toNat) := by
    rw [BitVec.ushiftRight_eq', BitVec.toNat_umod, UInt32.toNat_toBitVec, hrest]
    have hbelow : 32 - n.toNat < 32 := by omega
    exact congrArg (x.toBitVec >>> ·) (Nat.mod_eq_of_lt hbelow)
  apply UInt32.toBitVec_inj.mp
  rw [Rfc1321.rotate, BitVec.rotateLeft_def, Nat.mod_eq_of_lt hlt, rotl, UInt32.toBitVec_or,
    UInt32.toBitVec_shiftLeft, UInt32.toBitVec_shiftRight, hleft, hright]

theorem kTable_encloses :
    ∀ i < 64, SineBounds.Encloses 4294967296 4096 40 (i + 1) (kTable.getD i 0).toNat := by
  decide +kernel

theorem kTable_eq (hi : i < 64) : kTable.getD i 0 = T (i + 1) := by
  have hslack : 4294967296 * 4096 * 3 ^ (i + 1) * (40 + 2) < (40 + 1).factorial * (40 + 1) := by
    have hpow : 3 ^ (i + 1) ≤ 3 ^ 64 := Nat.pow_le_pow_right (by decide) hi
    have hlargest : 4294967296 * 4096 * 3 ^ 64 * (40 + 2) < (40 + 1).factorial * (40 + 1) := by decide +kernel
    exact lt_of_le_of_lt (by gcongr) hlargest
  have hfloor := SineBounds.floor_mul_sin hslack (kTable_encloses i hi)
  rw [Nat.cast_ofNat] at hfloor
  rw [T, hfloor, UInt32.ofNat_toNat]

theorem round_eq (hi : i < 64) (hwords : ∀ place < 16, m place = X place) (words : Words) :
    round m words i =
      ⟨words.d,
        operation (roundFunction i) words.a words.b words.c words.d (X (roundWord i)) (roundShift i) (i + 1),
        words.b, words.c⟩ := by
  obtain ⟨hpos, hlt⟩ := roundShift_bounds i hi
  simp only [round, roundInput_eq, operation]
  rw [rotl_eq hpos hlt, kTable_eq hi, hwords _ (roundWord_lt i), UInt32.add_assoc (_ + _),
    UInt32.add_comm (T _), ← UInt32.add_assoc (_ + _)]
  rfl

theorem four_rounds_eq (hplace : place < 16) (hwords : ∀ place < 16, m place = X place) (words : Words) :
    ([4 * place, 4 * place + 1, 4 * place + 2, 4 * place + 3].foldl (round m) words).registers =
      (quarterAt place).apply X words.registers := by
  simp only [foldl_cons, foldl_nil]
  rw [round_eq (by omega) hwords, round_eq (by omega) hwords, round_eq (by omega) hwords,
    round_eq (by omega) hwords, roundFunction_add (by decide : 1 < 4), roundFunction_add (by decide : 2 < 4),
    roundFunction_add (by decide : 3 < 4)]
  rfl

theorem rounds_eq (hwords : ∀ place < 16, m place = X place) (words : Words) :
    ((List.range 64).foldl (round m) words).registers =
      quarters.foldl (fun registers quarter ↦ quarter.apply X registers) words.registers := by
  have hrange : List.range 64 =
      (List.range 16).flatMap fun place ↦ [4 * place, 4 * place + 1, 4 * place + 2, 4 * place + 3] := rfl
  have hsteps (places : List Nat) (hplaces : ∀ place ∈ places, place < 16) (words : Words) :
      ((places.flatMap fun place ↦ [4 * place, 4 * place + 1, 4 * place + 2, 4 * place + 3]).foldl
        (round m) words).registers =
        (places.map quarterAt).foldl (fun registers quarter ↦ quarter.apply X registers) words.registers := by
    induction places generalizing words with
    | nil => rfl
    | cons place places ih =>
      have hrest := ih fun place hplace ↦ hplaces place (mem_cons_of_mem _ hplace)
      rw [flatMap_cons, foldl_append, hrest,
        four_rounds_eq (hplaces place mem_cons_self) hwords, map_cons, foldl_cons]
  rw [hrange, hsteps _ fun place hplace ↦ mem_range.mp hplace, quarters_eq]

theorem processBlock_registers {block : Bytes} (hwords : ∀ place < 16, Rfc1321.word block place = X place)
    (words : Words) : (processBlock words block).registers = Rfc1321.processBlock X words.registers := by
  have hrounds := rounds_eq (m := fun i ↦ readU32 (fun offset ↦ block.getD offset 0) (i * 4)) (X := X)
    (fun place hplace ↦ by rw [← hwords place hplace, Rfc1321.word, Nat.mul_comm]) words
  rw [Rfc1321.processBlock, ← hrounds]
  rfl

end Rounds

def initialWords : Words := ⟨0x67452301, 0xefcdab89, 0x98badcfe, 0x10325476⟩

theorem processBlocks_eq (count : Nat) (words : Words) (data : Bytes) :
    processBlocks count words data = takeBlocks kBlockBytes processBlock count words data := by
  induction count generalizing words data with
  | zero => rfl
  | succ count ih => rw [processBlocks, takeBlocks, ih]

/-- The object that has taken a message, in one piece or in many. -/
def after (message : Bytes) : Md5 where
  words := (absorb kBlockBytes processBlock initialWords message).1
  bitCount := UInt64.ofNat message.length * 8
  buffer := (absorb kBlockBytes processBlock initialWords message).2

theorem after_buffer_length (message : Bytes) :
    (after message).buffer.length = message.length % kBlockBytes := by
  have hsplit := Nat.div_add_mod message.length kBlockBytes
  rw [after, absorb, takeBlocks_snd, length_drop, Nat.mul_comm]
  omega

theorem after_buffer_lt (message : Bytes) : (after message).buffer.length < kBlockBytes := by
  rw [after_buffer_length]
  exact Nat.mod_lt _ (by decide)

/-- The words and the tail after an update are those of the stream that stood in the buffer and came in. -/
theorem update_eq (md5 : Md5) (data : Bytes) (hbuffer : md5.buffer.length < kBlockBytes) : md5.update data =
      ⟨(absorb kBlockBytes processBlock md5.words (md5.buffer ++ data)).1,
        md5.bitCount + UInt64.ofNat data.length * 8,
        (absorb kBlockBytes processBlock md5.words (md5.buffer ++ data)).2⟩ := by
  have hsize : 0 < kBlockBytes := by decide
  rw [update]
  simp only [processBlocks_eq]
  split_ifs with hempty hfull
  · rw [List.isEmpty_iff.mp hempty, nil_append, absorb]
  · have hcut : md5.buffer ++ data = md5.buffer ++ data.take (kBlockBytes - md5.buffer.length) ++
        data.drop (kBlockBytes - md5.buffer.length) := by
      rw [append_assoc, take_append_drop]
    rw [hcut, absorb_append_of_length hsize hfull, absorb]
  · -- the buffer is not filled, so the call was shorter than the room in it
    have hshort : data.length < kBlockBytes - md5.buffer.length := by
      rw [length_append, length_take] at hfull
      omega
    have hwhole : data.take (kBlockBytes - md5.buffer.length) = data := take_of_length_le hshort.le
    have hbelow : (md5.buffer ++ data).length < kBlockBytes := by
      rw [length_append]
      omega
    rw [hwhole, absorb_of_lt hbelow]

theorem update_after (message data : Bytes) : (after message).update data = after (message ++ data) := by
  have hstream : absorb kBlockBytes processBlock initialWords (message ++ data) = _ :=
    absorb_append initialWords message data
  rw [update_eq _ _ (after_buffer_lt message), after, after, hstream, length_append, UInt64.ofNat_add,
    UInt64.add_mul]

theorem padding_eq (message : Bytes) :
    padding (after message).buffer.length = Rfc1321.paddingBits message.length := by
  have hlength := after_buffer_length message
  have hbelow := after_buffer_lt message
  rw [padding, Rfc1321.paddingBits, kPaddingByte]
  congr 2
  unfold kBlockBytes at hlength hbelow
  split_ifs <;> omega

theorem after_bitCount_toNat (message : Bytes) :
    (after message).bitCount.toNat = 8 * message.length % 18446744073709551616 := by
  rw [after, UInt64.toNat_mul, UInt64.toNat_ofNat']
  change message.length % 18446744073709551616 * 8 % 18446744073709551616 = _
  rw [Nat.mod_mul_mod, Nat.mul_comm]

theorem lengthBytes_eq (message : Bytes) :
    lengthBytes (after message).bitCount = Rfc1321.lengthBits message.length := by
  have hcount := after_bitCount_toNat message
  have hplaces : Rfc1321.lengthBits message.length =
      [UInt8.ofNat (8 * message.length / 256 ^ 0), UInt8.ofNat (8 * message.length / 256 ^ 1),
        UInt8.ofNat (8 * message.length / 256 ^ 2), UInt8.ofNat (8 * message.length / 256 ^ 3),
        UInt8.ofNat (8 * message.length / 256 ^ 4), UInt8.ofNat (8 * message.length / 256 ^ 5),
        UInt8.ofNat (8 * message.length / 256 ^ 6), UInt8.ofNat (8 * message.length / 256 ^ 7)] := rfl
  rw [hplaces]
  simp only [lengthBytes, wordBytes, cons_append, nil_append, cons.injEq, and_true,
    ← UInt8.toNat_inj, UInt32.toNat_toUInt8, UInt32.toNat_shiftRight, UInt64.toNat_toUInt32,
    UInt64.toNat_shiftRight, UInt8.toNat_ofNat', Nat.shiftRight_eq_div_pow, hcount]
  refine ⟨?_, ?_, ?_, ?_, ?_, ?_, ?_, ?_⟩ <;> simp <;> omega

theorem hexDigits_eq (byte : UInt8) :
    hexDigits byte = [numeralDigit (byte.toNat / 16), numeralDigit (byte.toNat % 16)] := by
  have hbytes : ∀ number < 256, hexDigits (UInt8.ofNat number) =
      [numeralDigit (number / 16), numeralDigit (number % 16)] := by decide +kernel
  have hbyte := hbytes byte.toNat byte.toNat_lt
  rwa [UInt8.ofNat_toNat] at hbyte

theorem word_block {place : Nat} (hplace : place < 16) (bytes : Bytes) (block : Nat) :
    Rfc1321.word ((bytes.drop (block * kBlockBytes)).take kBlockBytes) place =
      Rfc1321.word bytes (16 * block + place) := by
  have hbyte (offset : Nat) (hoffset : offset < kBlockBytes) :
      ((bytes.drop (block * kBlockBytes)).take kBlockBytes).getD offset 0 =
        bytes.getD (block * kBlockBytes + offset) 0 := by
    rw [getD_eq_getElem?_getD, getElem?_take_of_lt hoffset, getElem?_drop, ← getD_eq_getElem?_getD]
  have hstart : 4 * (16 * block + place) = block * kBlockBytes + 4 * place := by
    rw [kBlockBytes]
    omega
  unfold kBlockBytes at hbyte hstart ⊢
  rw [Rfc1321.word, Rfc1321.word, readU32, readU32, hbyte _ (by omega), hbyte _ (by omega),
    hbyte _ (by omega), hbyte _ (by omega), hstart]
  rfl

theorem after_registers (message : Bytes) : (after message).words.registers = Rfc1321.finish message := by
  rw [after, absorb, takeBlocks_fst, Rfc1321.finish]
  refine (foldl_hom Words.registers fun words block ↦ ?_).symm
  exact (processBlock_registers (fun place hplace ↦ word_block hplace message block) words).symm

theorem hex_after (message : Bytes) : (after message).hex = Rfc1321.hexText (Rfc1321.digest message) := by
  have hpadded : ((after message).update (padding (after message).buffer.length)).update
      (lengthBytes (after message).bitCount) = after (Rfc1321.padded message) := by
    rw [padding_eq, lengthBytes_eq, update_after, update_after, Rfc1321.padded]
  have hdigits : hexDigits = fun byte ↦ [numeralDigit (byte.toNat / 16), numeralDigit (byte.toNat % 16)] :=
    funext hexDigits_eq
  rw [hex, hpadded, Rfc1321.digest, ← after_registers, Rfc1321.hexText, hdigits]
  rfl

inductive Call where
  | update (data : Bytes)
  | hex

def Call.brings : Call → Bytes
  | .update data => data
  | .hex => []

/-- The object after a call, and what `hex` answered. -/
def call (md5 : Md5) : Call → Md5 × Option Bytes
  | .update data => (md5.update data, none)
  | .hex => (md5, some md5.hex)

/-- The calls one after the other on a new object, and their answers. -/
def calls (made : List Call) : Md5 × List (Option Bytes) :=
  made.foldl (fun state made ↦ ((state.1.call made).1, state.2 ++ [(state.1.call made).2])) ({}, [])

theorem call_after (message : Bytes) (made : Call) :
    ((after message).call made).1 = after (message ++ made.brings) := by
  cases made with
  | update data => exact update_after message data
  | hex => rw [call, Call.brings, append_nil]

theorem calls_append (made : List Call) (next : Call) : calls (made ++ [next]) =
      (((calls made).1.call next).1, (calls made).2 ++ [((calls made).1.call next).2]) := by
  rw [calls, foldl_append, ← calls]
  rfl

theorem calls_fst (made : List Call) : (calls made).1 = after (made.flatMap Call.brings) := by
  induction made using reverseRecOn with
  | nil => rfl
  | append_singleton made next ih =>
    rw [calls_append, ih, call_after, flatMap_append, flatMap_singleton]

/-- **The digest.** After any calls, empty updates and `hex` calls among them, `hex` answers the digest of the
bytes they brought and changes nothing, and the buffer is never full. -/
theorem hex_answers_digest (made : List Call) : (calls (made ++ [.hex])).2 =
        (calls made).2 ++ [some (Rfc1321.hexText (Rfc1321.digest (made.flatMap Call.brings)))] ∧
      (calls (made ++ [.hex])).1 = (calls made).1 ∧ (calls made).1.buffer.length < 64 := by
  refine ⟨?_, ?_, ?_⟩
  · rw [calls_append, calls_fst, call, hex_after]
  · rw [calls_append, call]
  · rw [calls_fst]
    exact after_buffer_lt _

end DhcpServer.Core.Md5
