import DhcpServer.Library.Bytes

/-!
# MD5

`core::Md5`, the checksum the device keeps of the cache file it wrote. `buffer` holds the bytes of
the block that is not full yet; the source keeps them in an array of 64 bytes with a count.
-/

namespace DhcpServer.Core

open Library

structure Md5.Words where
  a : UInt32
  b : UInt32
  c : UInt32
  d : UInt32

structure Md5 where
  words : Md5.Words := ⟨0x67452301, 0xefcdab89, 0x98badcfe, 0x10325476⟩
  bitCount : UInt64 := 0
  buffer : Bytes := []

namespace Md5

def kPaddingByte : UInt8 := 0x80

def kBlockBytes : Nat := 64

def kShift : List UInt32 :=
  [7, 12, 17, 22, 7, 12, 17, 22, 7, 12, 17, 22, 7, 12, 17, 22,
    5, 9, 14, 20, 5, 9, 14, 20, 5, 9, 14, 20, 5, 9, 14, 20,
    4, 11, 16, 23, 4, 11, 16, 23, 4, 11, 16, 23, 4, 11, 16, 23,
    6, 10, 15, 21, 6, 10, 15, 21, 6, 10, 15, 21, 6, 10, 15, 21]

def kTable : List UInt32 :=
  [0xd76aa478, 0xe8c7b756, 0x242070db, 0xc1bdceee, 0xf57c0faf, 0x4787c62a, 0xa8304613, 0xfd469501,
    0x698098d8, 0x8b44f7af, 0xffff5bb1, 0x895cd7be, 0x6b901122, 0xfd987193, 0xa679438e, 0x49b40821,
    0xf61e2562, 0xc040b340, 0x265e5a51, 0xe9b6c7aa, 0xd62f105d, 0x02441453, 0xd8a1e681, 0xe7d3fbc8,
    0x21e1cde6, 0xc33707d6, 0xf4d50d87, 0x455a14ed, 0xa9e3e905, 0xfcefa3f8, 0x676f02d9, 0x8d2a4c8a,
    0xfffa3942, 0x8771f681, 0x6d9d6122, 0xfde5380c, 0xa4beea44, 0x4bdecfa9, 0xf6bb4b60, 0xbebfbc70,
    0x289b7ec6, 0xeaa127fa, 0xd4ef3085, 0x04881d05, 0xd9d4d039, 0xe6db99e5, 0x1fa27cf8, 0xc4ac5665,
    0xf4292244, 0x432aff97, 0xab9423a7, 0xfc93a039, 0x655b59c3, 0x8f0ccc92, 0xffeff47d, 0x85845dd1,
    0x6fa87e4f, 0xfe2ce6e0, 0xa3014314, 0x4e0811a1, 0xf7537e82, 0xbd3af235, 0x2ad7d2bb, 0xeb86d391]

def rotl (x n : UInt32) : UInt32 := (x <<< n) ||| (x >>> (32 - n))

/-- The function of a round and the word of the block it takes. -/
def roundInput (i : Nat) (words : Words) : UInt32 × Nat :=
  if i < 16 then ((words.b &&& words.c) ||| (~~~words.b &&& words.d), i)
  else if i < 32 then ((words.d &&& words.b) ||| (~~~words.d &&& words.c), (5 * i + 1) % 16)
  else if i < 48 then (words.b ^^^ words.c ^^^ words.d, (3 * i + 5) % 16)
  else (words.c ^^^ (words.b ||| ~~~words.d), 7 * i % 16)

def round (m : Nat → UInt32) (words : Words) (i : Nat) : Words :=
  let (f, g) := roundInput i words
  ⟨words.d, words.b + rotl (words.a + f + kTable.getD i 0 + m g) (kShift.getD i 0), words.b, words.c⟩

def processBlock (words : Words) (block : Bytes) : Words :=
  let m := fun i ↦ readU32 (fun offset ↦ block.getD offset 0) (i * 4)
  let last := (List.range 64).foldl (round m) words
  ⟨words.a + last.a, words.b + last.b, words.c + last.c, words.d + last.d⟩

def processBlocks : (count : Nat) → Words → Bytes → Words × Bytes
  | 0, words, data => (words, data)
  | count + 1, words, data =>
    processBlocks count (processBlock words (data.take kBlockBytes)) (data.drop kBlockBytes)

def update (md5 : Md5) (data : Bytes) : Md5 :=
  let bitCount := md5.bitCount + UInt64.ofNat data.length * 8
  if md5.buffer.isEmpty then
    let (words, buffer) := processBlocks (data.length / kBlockBytes) md5.words data
    ⟨words, bitCount, buffer⟩
  else
    let taken := data.take (kBlockBytes - md5.buffer.length)
    let rest := data.drop (kBlockBytes - md5.buffer.length)
    let filled := md5.buffer ++ taken
    if filled.length = kBlockBytes then
      let (words, buffer) := processBlocks (rest.length / kBlockBytes)
        (processBlock md5.words filled) rest
      ⟨words, bitCount, buffer⟩
    else ⟨md5.words, bitCount, filled⟩

def hexDigit (nibble : UInt8) : UInt8 := if nibble < 10 then 0x30 + nibble else 0x57 + nibble

def hexDigits (byte : UInt8) : Bytes := [hexDigit (byte >>> 4), hexDigit (byte &&& 0x0F)]

/-- The padding that leaves eight bytes of the last block. -/
def padding (buffered : Nat) : Bytes :=
  kPaddingByte :: List.replicate ((if buffered ≤ 55 then 56 - buffered else 120 - buffered) - 1) 0

def lengthBytes (bits : UInt64) : Bytes := wordBytes bits.toUInt32 ++ wordBytes (bits >>> 32).toUInt32

def hex (md5 : Md5) : Bytes :=
  let tail := (md5.update (padding md5.buffer.length)).update (lengthBytes md5.bitCount)
  (wordBytes tail.words.a ++ wordBytes tail.words.b ++ wordBytes tail.words.c ++
    wordBytes tail.words.d).flatMap hexDigits

/-- The reads of `Md5::file`, 4096 bytes each; the last one is shorter, possibly empty. -/
def readChunks : (count : Nat) → Md5 → Bytes → Md5
  | 0, md5, rest => if rest.isEmpty then md5 else md5.update rest
  | count + 1, md5, rest => readChunks count (md5.update (rest.take 4096)) (rest.drop 4096)

def file (content : Bytes) : Bytes := (readChunks (content.length / 4096) {} content).hex

theorem length_hex (md5 : Md5) : md5.hex.length = 32 := by
  simp [Md5.hex, wordBytes, hexDigits]

theorem file_ne_nil (content : Bytes) : file content ≠ [] := by
  intro hnil
  have hlength := length_hex (readChunks (content.length / 4096) {} content)
  rw [file] at hnil
  simp [hnil] at hlength

end Md5

end DhcpServer.Core
