import Mathlib.Analysis.SpecialFunctions.Trigonometric.Basic

/-!
# Sines of natural numbers

The sine of a natural number is the imaginary part of a power of one complex number. A Taylor sum of that
number over its factorial is a Gaussian integer, and so is each power of it; the integer part of a multiple
of the sine is read off the power, as long as the multiple does not come too close to an integer.
-/

namespace DhcpServer.Library.SineBounds

open Complex

abbrev Gaussian := Int × Int

def mul (left right : Gaussian) : Gaussian :=
  (left.1 * right.1 - left.2 * right.2, left.1 * right.2 + left.2 * right.1)

def pow (base : Gaussian) : Nat → Gaussian
  | 0 => (1, 0)
  | count + 1 => mul (pow base count) base

def unit : Nat → Gaussian
  | 0 => (1, 0)
  | count + 1 => (-(unit count).2, (unit count).1)

/-- The Taylor sum up to a degree, times the factorial of the degree. -/
def taylor : Nat → Gaussian
  | 0 => (1, 0)
  | degree + 1 =>
    ((degree + 1) * (taylor degree).1 + (unit (degree + 1)).1,
      (degree + 1) * (taylor degree).2 + (unit (degree + 1)).2)

def toComplex (number : Gaussian) : ℂ := number.1 + number.2 * I

variable {left right base : Gaussian} {count degree : Nat}

theorem toComplex_im (number : Gaussian) : (toComplex number).im = number.2 := by simp [toComplex]

theorem toComplex_mul (left right : Gaussian) :
    toComplex (mul left right) = toComplex left * toComplex right := by
  apply Complex.ext <;> simp [toComplex, mul]

theorem toComplex_pow (base : Gaussian) (count : Nat) :
    toComplex (pow base count) = toComplex base ^ count := by
  induction count with
  | zero => simp [toComplex, pow]
  | succ count ih => rw [pow, toComplex_mul, ih, pow_succ]

theorem toComplex_unit (count : Nat) : toComplex (unit count) = I ^ count := by
  induction count with
  | zero => simp [toComplex, unit]
  | succ count ih =>
    rw [pow_succ, ← ih]
    apply Complex.ext <;> simp [toComplex, unit]

theorem toComplex_taylor (degree : Nat) :
    toComplex (taylor degree) = degree.factorial * ∑ m ∈ Finset.range (degree + 1), I ^ m / m.factorial := by
  induction degree with
  | zero => simp [toComplex, taylor]
  | succ degree ih =>
    have hstep : toComplex (taylor (degree + 1)) =
        (degree + 1) * toComplex (taylor degree) + toComplex (unit (degree + 1)) := by
      apply Complex.ext <;> simp [toComplex, taylor]
    have hfactorial : ((degree + 1).factorial : ℂ) ≠ 0 := by exact_mod_cast (Nat.factorial_ne_zero _)
    rw [hstep, ih, toComplex_unit, Finset.sum_range_succ _ (degree + 1), mul_add, mul_div_cancel₀ _ hfactorial,
      Nat.factorial_succ]
    push_cast
    ring

theorem norm_exp_sub_taylor_le (degree : Nat) : ‖exp I - toComplex (taylor degree) / degree.factorial‖ ≤
      (degree + 2) / ((degree + 1).factorial * (degree + 1)) := by
  have hfactorial : (degree.factorial : ℂ) ≠ 0 := by exact_mod_cast degree.factorial_ne_zero
  have hbound := Complex.exp_bound (by simp : ‖I‖ ≤ 1) degree.succ_pos
  rw [toComplex_taylor, mul_div_cancel_left₀ _ hfactorial]
  refine hbound.trans (le_of_eq ?_)
  simp only [norm_I, one_pow, one_mul, Nat.succ_eq_add_one]
  push_cast
  ring

theorem norm_pow_sub_pow_le {point near : ℂ} {distance : ℝ} (hpoint : ‖point‖ = 1) (hnear : ‖near‖ ≤ 3)
    (hdistance : ‖point - near‖ ≤ distance) (count : Nat) :
    ‖point ^ count - near ^ count‖ ≤ distance * 3 ^ count := by
  have hnonneg : 0 ≤ distance := (norm_nonneg _).trans hdistance
  induction count with
  | zero => simpa using hnonneg
  | succ count ih =>
    have hsplit : point ^ (count + 1) - near ^ (count + 1) =
        point * (point ^ count - near ^ count) + (point - near) * near ^ count := by ring
    have hpower : ‖near ^ count‖ ≤ 3 ^ count := by
      rw [norm_pow]
      exact pow_le_pow_left₀ (norm_nonneg _) hnear count
    calc
      _ ≤ ‖point * (point ^ count - near ^ count)‖ + ‖(point - near) * near ^ count‖ :=
        hsplit ▸ norm_add_le _ _
      _ ≤ distance * 3 ^ count + distance * 3 ^ count := by
        rw [norm_mul, norm_mul, hpoint, one_mul]
        exact add_le_add ih (mul_le_mul hdistance hpower (norm_nonneg _) hnonneg)
      _ ≤ distance * 3 ^ (count + 1) := by
        have hmore : 0 ≤ distance * 3 ^ count := by positivity
        rw [pow_succ]
        linarith

theorem norm_taylor_le (degree : Nat) : ‖toComplex (taylor degree) / degree.factorial‖ ≤ 3 := by
  have hclose := norm_exp_sub_taylor_le degree
  have hpoint : ‖exp I‖ = 1 := by simpa using norm_exp_ofReal_mul_I 1
  have hbound : ((degree : ℝ) + 2) / ((degree + 1).factorial * (degree + 1)) ≤ 2 := by
    have hfactorial : (1 : ℝ) ≤ (degree + 1).factorial := by
      exact_mod_cast Nat.one_le_iff_ne_zero.mpr (Nat.factorial_ne_zero _)
    rw [div_le_iff₀ (by positivity)]
    nlinarith [Nat.cast_nonneg (α := ℝ) degree]
  calc
    _ ≤ ‖exp I‖ + ‖exp I - toComplex (taylor degree) / degree.factorial‖ := by
      have htriangle := norm_sub_le (exp I) (exp I - toComplex (taylor degree) / degree.factorial)
      rwa [sub_sub_cancel] at htriangle
    _ ≤ 3 := by linarith

theorem abs_sin_sub_le (degree count : Nat) :
    |Real.sin count - (pow (taylor degree) count).2 / (degree.factorial : ℝ) ^ count| ≤
      (degree + 2) / ((degree + 1).factorial * (degree + 1)) * 3 ^ count := by
  have hpoint : ‖exp I‖ = 1 := by simpa using norm_exp_ofReal_mul_I 1
  have hclose := norm_pow_sub_pow_le hpoint (norm_taylor_le degree) (norm_exp_sub_taylor_le degree) count
  have hsine : (exp I ^ count).im = Real.sin count := by
    rw [← Complex.exp_nat_mul]
    exact_mod_cast Complex.exp_ofReal_mul_I_im (count : ℝ)
  have hpart : ((toComplex (taylor degree) / degree.factorial) ^ count).im =
      (pow (taylor degree) count).2 / (degree.factorial : ℝ) ^ count := by
    rw [div_pow, ← toComplex_pow]
    have hreal : ((degree.factorial : ℂ) ^ count) = (((degree.factorial : ℝ) ^ count : ℝ) : ℂ) := by
      push_cast
      rfl
    rw [hreal, Complex.div_ofReal_im, toComplex_im]
  rw [← hsine, ← hpart, ← Complex.sub_im]
  exact (Complex.abs_im_le_norm _).trans hclose

/-- The multiple of the sine lies between an integer and the next one, and not too close to either. -/
def Encloses (scale slack degree count part : Nat) : Prop :=
  (part * slack + 1) * degree.factorial ^ count ≤ scale * slack * (pow (taylor degree) count).2.natAbs ∧
    scale * slack * (pow (taylor degree) count).2.natAbs + degree.factorial ^ count ≤
      (part + 1) * slack * degree.factorial ^ count

instance (scale slack degree count part : Nat) : Decidable (Encloses scale slack degree count part) :=
  inferInstanceAs (Decidable (_ ∧ _))

theorem floor_mul_sin {scale slack degree count part : Nat}
    (hslack : scale * slack * 3 ^ count * (degree + 2) < (degree + 1).factorial * (degree + 1))
    (hpart : Encloses scale slack degree count part) : ⌊(scale : ℝ) * |Real.sin count|⌋₊ = part := by
  obtain ⟨hlow, hhigh⟩ := hpart
  have hwhole : (0 : ℝ) < (degree.factorial : ℝ) ^ count := by positivity
  set height : ℝ := ((pow (taylor degree) count).2.natAbs : ℝ) / (degree.factorial : ℝ) ^ count with hheight
  set distance : ℝ := (degree + 2) / ((degree + 1).factorial * (degree + 1)) * 3 ^ count with hdistance
  have hclose : |(|Real.sin count| - height)| ≤ distance := by
    have habs : height = |(pow (taylor degree) count).2 / (degree.factorial : ℝ) ^ count| := by
      rw [abs_div, abs_of_pos hwhole, hheight, Nat.cast_natAbs, Int.cast_abs]
    rw [habs]
    exact (abs_abs_sub_abs_le _ _).trans (abs_sin_sub_le degree count)
  have hsmall : (scale : ℝ) * slack * distance < 1 := by
    have hbelow : ((scale * slack * 3 ^ count * (degree + 2) : Nat) : ℝ) <
        ((degree + 1).factorial * (degree + 1) : Nat) := Nat.cast_lt.mpr hslack
    push_cast at hbelow
    rw [hdistance, div_mul_eq_mul_div, mul_div_assoc', div_lt_one (by positivity)]
    linarith
  have hfloor : (part : ℝ) * slack + 1 ≤ scale * slack * height := by
    have hreal : (((part * slack + 1) * degree.factorial ^ count : Nat) : ℝ) ≤
        (scale * slack * (pow (taylor degree) count).2.natAbs : Nat) := Nat.cast_le.mpr hlow
    rw [hheight, mul_div_assoc', le_div_iff₀ hwhole]
    exact_mod_cast hreal
  have hceil : scale * slack * height + 1 ≤ ((part : ℝ) + 1) * slack := by
    have hreal : ((scale * slack * (pow (taylor degree) count).2.natAbs + degree.factorial ^ count : Nat) : ℝ) ≤
        ((part + 1) * slack * degree.factorial ^ count : Nat) := Nat.cast_le.mpr hhigh
    rw [hheight, mul_div_assoc', div_add_one hwhole.ne', div_le_iff₀ hwhole]
    exact_mod_cast hreal
  obtain ⟨hbelow, habove⟩ := abs_le.mp hclose
  have hscaled : 0 ≤ (scale : ℝ) * slack := by positivity
  have hslackPos : 0 < (slack : ℝ) := by
    by_contra hzero
    have hnone : (slack : ℝ) = 0 := le_antisymm (not_lt.mp hzero) (Nat.cast_nonneg slack)
    rw [hnone] at hfloor
    linarith
  rw [Nat.floor_eq_iff (by positivity)]
  constructor
  · have hmul := mul_le_mul_of_nonneg_left hbelow hscaled
    nlinarith
  · have hmul := mul_le_mul_of_nonneg_left habove hscaled
    nlinarith

end DhcpServer.Library.SineBounds
