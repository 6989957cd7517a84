import DhcpServer.Library.Bytes
import Mathlib.Tactic.IntervalCases

/-!
# Numerals

Numbers written in a base of at most sixteen, without leading zeros and in lower case, and the number
that a text of digits stands for, in either case and with any leading zeros.
-/

namespace DhcpServer.Library

open List Option

def digitValue (base : Nat) (byte : UInt8) : Option Nat :=
  let value :=
    if 0x30 ≤ byte ∧ byte ≤ 0x39 then byte.toNat - 0x30
    else if 0x61 ≤ byte ∧ byte ≤ 0x66 then byte.toNat - 0x57
    else if 0x41 ≤ byte ∧ byte ≤ 0x46 then byte.toNat - 0x37
    else base
  if value < base then some value else none

def readDigit (base total : Nat) (byte : UInt8) : Option Nat :=
  (digitValue base byte).map (total * base + ·)

/-- The number of a text of digits; an empty text is none. -/
def readNumeral (base : Nat) (text : Bytes) : Option Nat :=
  if text = [] then none else text.foldlM (readDigit base) 0

def numeralDigit (digit : Nat) : UInt8 := UInt8.ofNat digit.digitChar.toNat

def numeral (base number : Nat) : Bytes :=
  (Nat.toDigits base number).map fun digit ↦ UInt8.ofNat digit.toNat

def IsLowerDigit (byte : UInt8) : Prop := 0x30 ≤ byte ∧ byte ≤ 0x39 ∨ 0x61 ≤ byte ∧ byte ≤ 0x66

instance (byte : UInt8) : Decidable (IsLowerDigit byte) := inferInstanceAs (Decidable (_ ∨ _))

variable {base number digit count total : Nat} {byte : UInt8} {text : Bytes}

theorem digitValue_numeralDigit (hdigit : digit < base) (hbase : base ≤ 16) :
    digitValue base (numeralDigit digit) = some digit := by
  have hvalue : ∀ digit < 16, ∀ base, digit < base → digitValue base (numeralDigit digit) = some digit := by
    intro digit hlt base hdigit
    interval_cases digit <;> exact if_pos hdigit
  exact hvalue digit (Nat.lt_of_lt_of_le hdigit hbase) base hdigit

theorem isLowerDigit_numeralDigit (hdigit : digit < 16) : IsLowerDigit (numeralDigit digit) := by
  interval_cases digit <;> decide

theorem numeralDigit_eq_zero_iff (hdigit : digit < 16) : numeralDigit digit = 0x30 ↔ digit = 0 := by
  interval_cases digit <;> decide

theorem numeral_eq (hbase : 1 < base) (number : Nat) : numeral base number =
      (if number < base then [] else numeral base (number / base)) ++ [numeralDigit (number % base)] := by
  rw [numeral, Nat.toDigits_eq_if hbase]
  split_ifs with hone
  · rw [Nat.mod_eq_of_lt hone]
    rfl
  · rw [map_append]
    rfl

theorem numeral_ne_nil (base number : Nat) : numeral base number ≠ [] := by
  rw [numeral, ne_eq, map_eq_nil_iff]
  exact Nat.toDigits_ne_nil

theorem length_numeral_le (hbase : 1 < base) (hcount : 0 < count) (hnumber : number < base ^ count) :
    (numeral base number).length ≤ count := by
  rw [numeral, length_map]
  exact (Nat.length_toDigits_le_iff hbase hcount).mpr hnumber

theorem isLowerDigit_of_mem_numeral (hbase : 1 < base) (hsmall : base ≤ 16)
    (hbyte : byte ∈ numeral base number) : IsLowerDigit byte := by
  induction number using Nat.strongRecOn with
  | ind number ih =>
    rw [numeral_eq hbase] at hbyte
    rcases mem_append.mp hbyte with hfront | hlast
    · split_ifs at hfront with hone
      · cases hfront
      · have hpositive : 0 < number := Nat.lt_of_lt_of_le (Nat.zero_lt_of_lt hbase) (not_lt.mp hone)
        exact ih (number / base) (Nat.div_lt_self hpositive hbase) hfront
    · rw [mem_singleton.mp hlast]
      have hdigit := Nat.mod_lt number (Nat.zero_lt_of_lt hbase)
      exact isLowerDigit_numeralDigit (Nat.lt_of_lt_of_le hdigit hsmall)

theorem numeral_of_leading_zero (hbase : 1 < base) (hsmall : base ≤ 16)
    (hzero : (numeral base number).head? = some 0x30) : number = 0 := by
  induction number using Nat.strongRecOn with
  | ind number ih =>
    have hdigit := Nat.mod_lt number (Nat.zero_lt_of_lt hbase)
    rw [numeral_eq hbase] at hzero
    split_ifs at hzero with hone
    · have hmod := (numeralDigit_eq_zero_iff (Nat.lt_of_lt_of_le hdigit hsmall)).mp
        (Option.some.inj hzero)
      rwa [Nat.mod_eq_of_lt hone] at hmod
    · have hpositive : 0 < number := Nat.lt_of_lt_of_le (Nat.zero_lt_of_lt hbase) (not_lt.mp hone)
      have hfront : (numeral base (number / base)).head? = some 0x30 := by
        obtain ⟨first, rest, hcons⟩ := exists_cons_of_ne_nil (numeral_ne_nil base (number / base))
        rw [hcons] at hzero ⊢
        exact hzero
      have hnone := ih (number / base) (Nat.div_lt_self hpositive hbase) hfront
      exact absurd ((Nat.div_eq_zero_iff.mp hnone).resolve_left (by omega)) hone

theorem readNumeral_numeral (hbase : 1 < base) (hsmall : base ≤ 16) (number : Nat) :
    readNumeral base (numeral base number) = some number := by
  rw [readNumeral, if_neg (numeral_ne_nil base number)]
  induction number using Nat.strongRecOn with
  | ind number ih =>
    have hdigit : number % base < base := Nat.mod_lt number (Nat.zero_lt_of_lt hbase)
    have hlast (total : Nat) :
        List.foldlM (readDigit base) total [numeralDigit (number % base)] =
          some (total * base + number % base) := by
      rw [foldlM_cons, readDigit, digitValue_numeralDigit hdigit hsmall]
      rfl
    rw [numeral_eq hbase, foldlM_append]
    split_ifs with hone
    · refine (hlast 0).trans ?_
      rw [Nat.zero_mul, Nat.zero_add, Nat.mod_eq_of_lt hone]
    · have hpositive : 0 < number := Nat.lt_of_lt_of_le (Nat.zero_lt_of_lt hbase) (not_lt.mp hone)
      rw [ih (number / base) (Nat.div_lt_self hpositive hbase)]
      refine (hlast (number / base)).trans ?_
      rw [Nat.mul_comm, Nat.div_add_mod]

theorem foldlM_readDigit_digits (hread : text.foldlM (readDigit base) total = some number) :
    ∀ byte ∈ text, (digitValue base byte).isSome := by
  induction text generalizing total with
  | nil => simp
  | cons first text ih =>
    rw [foldlM_cons] at hread
    obtain ⟨middle, hfirst, hrest⟩ := bind_eq_some_iff.mp hread
    obtain ⟨digit, hdigit, -⟩ := map_eq_some_iff.mp hfirst
    exact forall_mem_cons.mpr ⟨by rw [hdigit]; rfl, ih hrest⟩

theorem readNumeral_digits (hread : readNumeral base text = some number) :
    ∀ byte ∈ text, (digitValue base byte).isSome := by
  rw [readNumeral] at hread
  split_ifs at hread with hnil
  exact foldlM_readDigit_digits hread

theorem isSome_digitValue_ten : (digitValue 10 byte).isSome ↔ 0x30 ≤ byte ∧ byte ≤ 0x39 := by
  simp only [digitValue, UInt8.le_iff_toNat_le, UInt8.reduceToNat]
  split_ifs <;> simp <;> omega

theorem readDigit_ten (hdigit : 0x30 ≤ byte ∧ byte ≤ 0x39) :
    readDigit 10 total byte = some (total * 10 + (byte.toNat - 0x30)) := by
  have hhigh : byte.toNat ≤ 0x39 := UInt8.le_iff_toNat_le.mp hdigit.2
  have hsmall : byte.toNat - 0x30 < 10 := by omega
  rw [readDigit, digitValue, if_pos hdigit, if_pos hsmall, map_some]

theorem readDigit_ten_eq_none (hdigit : ¬(0x30 ≤ byte ∧ byte ≤ 0x39)) : readDigit 10 total byte = none := by
  rw [readDigit, map_eq_none_iff]
  exact not_isSome_iff_eq_none.mp (mt isSome_digitValue_ten.mp hdigit)

theorem le_of_foldlM_readDigit (hbase : 0 < base) (hread : text.foldlM (readDigit base) total = some number) :
    total ≤ number := by
  induction text generalizing total with
  | nil => exact (Option.some.inj hread).le
  | cons first text ih =>
    rw [foldlM_cons] at hread
    obtain ⟨middle, hfirst, hrest⟩ := bind_eq_some_iff.mp hread
    obtain ⟨digit, -, rfl⟩ := map_eq_some_iff.mp hfirst
    have hmore : total ≤ total * base + digit :=
      (Nat.le_mul_of_pos_right total hbase).trans (Nat.le_add_right _ _)
    exact hmore.trans (ih hrest)

end DhcpServer.Library
