import Mathlib.Tactic.Ring

/-!
# Masks of the highest bits

A word whose set bits are the highest ones is recognised by its complement, which has no bit in common
with its successor. Two words agree under such a mask when they agree on the bits that it keeps.
-/

namespace DhcpServer.Library

/-- The highest `places` bits are set. -/
def highMask (width places : Nat) : BitVec width := BitVec.allOnes width <<< (width - places)

def SameHighBits {width : Nat} (places : Nat) (left right : BitVec width) : Prop :=
  ∀ i < places, left.getMsbD i = right.getMsbD i

variable {width places other : Nat} {mask left right : BitVec width}

section

variable (hplaces : places ≤ width)
include hplaces

theorem getMsbD_highMask (i : Nat) :
    (highMask width places).getMsbD i = decide (i < places) := by
  rw [highMask, BitVec.getMsbD_shiftLeft, BitVec.getMsbD_allOnes, decide_eq_decide]
  omega

theorem highMask_inj (hother : other ≤ width) :
    highMask width places = highMask width other ↔ places = other := by
  refine ⟨fun hsame ↦ ?_, fun hsame ↦ by rw [hsame]⟩
  have hbit (i : Nat) : i < places ↔ i < other := by
    have hmsb := congrArg (BitVec.getMsbD · i) hsame
    simpa [getMsbD_highMask hplaces, getMsbD_highMask hother] using hmsb
  have hbelow := hbit places
  have habove := hbit other
  omega

theorem toNat_highMask :
    (highMask width places).toNat = (2 ^ places - 1) * 2 ^ (width - places) := by
  have hwhole : 2 ^ width = 2 ^ places * 2 ^ (width - places) := by
    rw [← Nat.pow_add, Nat.add_sub_cancel' hplaces]
  obtain ⟨kept, hkept⟩ := Nat.exists_eq_add_one_of_ne_zero (Nat.two_pow_pos places).ne'
  obtain ⟨clear, hclear⟩ := Nat.exists_eq_add_one_of_ne_zero (Nat.two_pow_pos (width - places)).ne'
  rw [highMask, BitVec.toNat_shiftLeft, BitVec.toNat_allOnes, Nat.shiftLeft_eq, hwhole, hkept, hclear,
    Nat.add_sub_cancel]
  -- the bits that are shifted out stand above the word
  have hsplit : ((kept + 1) * (clear + 1) - 1) * (clear + 1) =
      kept * (clear + 1) + (kept + 1) * (clear + 1) * clear := by
    have hless : (kept + 1) * (clear + 1) - 1 = kept * clear + kept + clear := by
      rw [Nat.add_mul, Nat.mul_add, Nat.one_mul, Nat.mul_one, ← Nat.add_assoc, Nat.add_sub_cancel]
    rw [hless]
    ring
  have hsmall : kept * (clear + 1) < (kept + 1) * (clear + 1) :=
    Nat.mul_lt_mul_of_pos_right kept.lt_succ_self clear.succ_pos
  rw [hsplit, Nat.add_mul_mod_self_left, Nat.mod_eq_of_lt hsmall]

theorem toNat_not_highMask :
    (~~~highMask width places).toNat = 2 ^ (width - places) - 1 := by
  have hwhole : 2 ^ width = 2 ^ places * 2 ^ (width - places) := by
    rw [← Nat.pow_add, Nat.add_sub_cancel' hplaces]
  have hpositive : 0 < 2 ^ (width - places) := Nat.two_pow_pos _
  have hfilled : 0 < 2 ^ places := Nat.two_pow_pos _
  rw [BitVec.toNat_not, toNat_highMask hplaces, hwhole, Nat.sub_mul, Nat.one_mul]
  have hbelow : 2 ^ (width - places) ≤ 2 ^ places * 2 ^ (width - places) := Nat.le_mul_of_pos_left _ hfilled
  omega

end

/-- A number has no bit in common with its successor when all of its bits are the lowest ones. -/
theorem and_succ_eq_zero_iff (number : Nat) :
    number &&& (number + 1) = 0 ↔ ∃ count, number = 2 ^ count - 1 := by
  have hpower := Nat.and_sub_one_eq_zero_iff_isPowerOfTwo (Nat.succ_ne_zero number)
  rw [Nat.succ_eq_add_one, Nat.add_sub_cancel, Nat.and_comm] at hpower
  rw [hpower, Nat.isPowerOfTwo]
  refine exists_congr fun count ↦ ?_
  have hpositive : 0 < 2 ^ count := Nat.two_pow_pos _
  omega

theorem and_succ_mod_eq_zero_iff {number : Nat} (hnumber : number < 2 ^ width) :
    number &&& (number + 1) % 2 ^ width = 0 ↔ number &&& (number + 1) = 0 := by
  rcases Nat.lt_or_ge (number + 1) (2 ^ width) with hless | hlast
  · rw [Nat.mod_eq_of_lt hless]
  · have hwhole : number + 1 = 2 ^ width := Nat.le_antisymm hnumber hlast
    have hones : number = 2 ^ width - 1 := by omega
    rw [hwhole, Nat.mod_self, Nat.and_zero]
    exact iff_of_true rfl (hwhole ▸ (and_succ_eq_zero_iff number).mpr ⟨width, hones⟩)

/-- The masks of the highest bits are the words whose complement has no bit in common with its
successor. -/
theorem not_and_succ_eq_zero_iff :
    ~~~mask &&& (~~~mask + 1) = 0 ↔ ∃ places ≤ width, mask = highMask width places := by
  have hword : ~~~mask &&& (~~~mask + 1) = 0 ↔ (~~~mask).toNat &&& ((~~~mask).toNat + 1) = 0 := by
    rw [← and_succ_mod_eq_zero_iff (~~~mask).isLt, ← BitVec.toNat_inj, BitVec.toNat_and, BitVec.toNat_add]
    simp
  rw [hword, and_succ_eq_zero_iff]
  constructor
  · rintro ⟨count, hcount⟩
    have hbelow : 2 ^ count ≤ 2 ^ width := by
      have hlt := (~~~mask).isLt
      omega
    have hwidth : count ≤ width := (Nat.pow_le_pow_iff_right Nat.one_lt_two).mp hbelow
    refine ⟨width - count, Nat.sub_le _ _, BitVec.not_inj.mp (BitVec.eq_of_toNat_eq ?_)⟩
    rw [toNat_not_highMask (Nat.sub_le _ _), hcount, Nat.sub_sub_self hwidth]
  · rintro ⟨places, hplaces, rfl⟩
    exact ⟨width - places, toNat_not_highMask hplaces⟩

/-- Under a mask of the highest bits words are the same when they have the same highest bits. -/
theorem and_highMask_eq_iff (hplaces : places ≤ width) :
    left &&& highMask width places = right &&& highMask width places ↔ SameHighBits places left right := by
  constructor
  · intro hsame i hi
    have hbit := congrArg (BitVec.getMsbD · i) hsame
    simpa [getMsbD_highMask hplaces, hi] using hbit
  · intro hsame
    apply BitVec.eq_of_getMsbD_eq
    intro i _
    rw [BitVec.getMsbD_and, BitVec.getMsbD_and, getMsbD_highMask hplaces]
    by_cases hi : i < places
    · rw [hsame i hi]
    · simp [hi]

end DhcpServer.Library
