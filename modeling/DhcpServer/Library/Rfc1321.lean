import DhcpServer.Library.Numerals
import Mathlib.Analysis.SpecialFunctions.Trigonometric.Basic

/-!
# The MD5 message digest

RFC 1321, for messages of whole bytes. The constants of the four rounds are the integer parts of multiples
of sines, so the digest is defined but not computed here.
-/

namespace DhcpServer.Library.Rfc1321

structure Registers where
  A : UInt32
  B : UInt32
  C : UInt32
  D : UInt32

/-- A one bit and as many zero bits as leave eight bytes of the last block. -/
def paddingBits (length : Nat) : Bytes := 0x80 :: List.replicate ((119 - length % 64) % 64) 0

/-- The low-order eight bytes of the number of bits, the lowest first. -/
def lengthBits (length : Nat) : Bytes :=
  (List.range 8).map fun place ↦ UInt8.ofNat (8 * length / 256 ^ place)

def padded (message : Bytes) : Bytes := message ++ paddingBits message.length ++ lengthBits message.length

/-- A word of the padded message, its low-order byte first. -/
def word (bytes : Bytes) (place : Nat) : UInt32 := readU32 (fun i ↦ bytes.getD i 0) (4 * place)

def F (X Y Z : UInt32) : UInt32 := X &&& Y ||| ~~~X &&& Z
def G (X Y Z : UInt32) : UInt32 := X &&& Z ||| Y &&& ~~~Z
def H (X Y Z : UInt32) : UInt32 := X ^^^ Y ^^^ Z
def I (X Y Z : UInt32) : UInt32 := Y ^^^ (X ||| ~~~Z)

/-- The integer part of 4294967296 times the absolute value of the sine. -/
noncomputable def T (i : Nat) : UInt32 := UInt32.ofNat ⌊(4294967296 : ℝ) * |Real.sin i|⌋₊

def rotate (X : UInt32) (s : Nat) : UInt32 := ⟨X.toBitVec.rotateLeft s⟩

/-- `a = b + ((a + F(b,c,d) + X[k] + T[i]) <<< s)` -/
noncomputable def operation (function : UInt32 → UInt32 → UInt32 → UInt32) (a b c d x : UInt32) (s i : Nat) :
    UInt32 :=
  b + rotate (a + function b c d + x + T i) s

/-- Four operations `[ABCD k s i] [DABC k s i] [CDAB k s i] [BCDA k s i]`; the number of the first one is
`first`. -/
structure Quarter where
  function : UInt32 → UInt32 → UInt32 → UInt32
  words : Nat × Nat × Nat × Nat
  shifts : Nat × Nat × Nat × Nat
  first : Nat

noncomputable def Quarter.apply (quarter : Quarter) (X : Nat → UInt32) (registers : Registers) : Registers :=
  let (k₁, k₂, k₃, k₄) := quarter.words
  let (s₁, s₂, s₃, s₄) := quarter.shifts
  let A := operation quarter.function registers.A registers.B registers.C registers.D (X k₁) s₁ quarter.first
  let D := operation quarter.function registers.D A registers.B registers.C (X k₂) s₂ (quarter.first + 1)
  let C := operation quarter.function registers.C D A registers.B (X k₃) s₃ (quarter.first + 2)
  let B := operation quarter.function registers.B C D A (X k₄) s₄ (quarter.first + 3)
  ⟨A, B, C, D⟩

def quarters : List Quarter :=
  [⟨F, (0, 1, 2, 3), (7, 12, 17, 22), 1⟩, ⟨F, (4, 5, 6, 7), (7, 12, 17, 22), 5⟩,
    ⟨F, (8, 9, 10, 11), (7, 12, 17, 22), 9⟩, ⟨F, (12, 13, 14, 15), (7, 12, 17, 22), 13⟩,
    ⟨G, (1, 6, 11, 0), (5, 9, 14, 20), 17⟩, ⟨G, (5, 10, 15, 4), (5, 9, 14, 20), 21⟩,
    ⟨G, (9, 14, 3, 8), (5, 9, 14, 20), 25⟩, ⟨G, (13, 2, 7, 12), (5, 9, 14, 20), 29⟩,
    ⟨H, (5, 8, 11, 14), (4, 11, 16, 23), 33⟩, ⟨H, (1, 4, 7, 10), (4, 11, 16, 23), 37⟩,
    ⟨H, (13, 0, 3, 6), (4, 11, 16, 23), 41⟩, ⟨H, (9, 12, 15, 2), (4, 11, 16, 23), 45⟩,
    ⟨I, (0, 7, 14, 5), (6, 10, 15, 21), 49⟩, ⟨I, (12, 3, 10, 1), (6, 10, 15, 21), 53⟩,
    ⟨I, (8, 15, 6, 13), (6, 10, 15, 21), 57⟩, ⟨I, (4, 11, 2, 9), (6, 10, 15, 21), 61⟩]

/-- The rounds of one block of sixteen words, added to what was there before them. -/
noncomputable def processBlock (X : Nat → UInt32) (registers : Registers) : Registers :=
  let last := quarters.foldl (fun registers quarter ↦ quarter.apply X registers) registers
  ⟨registers.A + last.A, registers.B + last.B, registers.C + last.C, registers.D + last.D⟩

def initial : Registers := ⟨0x67452301, 0xefcdab89, 0x98badcfe, 0x10325476⟩

noncomputable def finish (bytes : Bytes) : Registers :=
  (List.range (bytes.length / 64)).foldl
    (fun registers block ↦ processBlock (fun place ↦ word bytes (16 * block + place)) registers) initial

noncomputable def digest (message : Bytes) : Bytes :=
  let registers := finish (padded message)
  wordBytes registers.A ++ wordBytes registers.B ++ wordBytes registers.C ++ wordBytes registers.D

def hexText (bytes : Bytes) : Bytes :=
  bytes.flatMap fun byte ↦ [numeralDigit (byte.toNat / 16), numeralDigit (byte.toNat % 16)]

end DhcpServer.Library.Rfc1321
