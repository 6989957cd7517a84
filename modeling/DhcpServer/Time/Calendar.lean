import DhcpServer.Time.TimeMath
import Mathlib.Data.List.Lex
import Mathlib.Tactic.IntervalCases
import Mathlib.Tactic.Ring

/-!
# The calendar is counted without gaps

Days from 1970-01-01 in closed form. A month begins as many days after the one before it as that one has,
so later dates have higher numbers, and every number is that of a date. With the time of day this makes
seconds and dates two names of the same thing.
-/

namespace DhcpServer.Time.TimeMath

def shiftedYear (year : Int) (month : Nat) : Int := if month ≤ 2 then year - 1 else year

def shiftedMonth (month : Nat) : Nat := if 2 < month then month - 3 else month + 9

theorem tdiv_shifted (number : Int) {divisor : Int} (hdivisor : 0 < divisor) :
    (if 0 ≤ number then number else number - (divisor - 1)).tdiv divisor = number / divisor := by
  split_ifs with hsign
  · exact Int.tdiv_eq_ediv_of_nonneg hsign
  · have hflip : number - (divisor - 1) = -(divisor - 1 - number) := by ring
    have hnonneg : 0 ≤ divisor - 1 - number := by omega
    have hsplit := Int.mul_ediv_add_emod (divisor - 1 - number) divisor
    have hrest := Int.emod_nonneg (divisor - 1 - number) hdivisor.ne'
    have hbelow := Int.emod_lt_of_pos (divisor - 1 - number) hdivisor
    rw [hflip, Int.neg_tdiv, Int.tdiv_eq_ediv_of_nonneg hnonneg, eq_comm]
    have hunique : (divisor - 1 - (divisor - 1 - number) % divisor) +
        divisor * -((divisor - 1 - number) / divisor) = number := by
      rw [Int.mul_neg]
      omega
    exact ((Int.ediv_emod_unique hdivisor).mpr ⟨hunique, by omega, by omega⟩).1

theorem daysFromCivil_eq (year : Int) (month : Nat) {day : Nat} (hday : 1 ≤ day) :
    daysFromCivil year month day =
      365 * shiftedYear year month + shiftedYear year month / 4 - shiftedYear year month / 100 +
        shiftedYear year month / 400 + ((153 * shiftedMonth month + 2) / 5 : Nat) + day - 719469 := by
  have hera := tdiv_shifted (shiftedYear year month) (by decide : (0 : Int) < 400)
  have hyear : (if month ≤ kFebruary then year - 1 else year) = shiftedYear year month := rfl
  have hmonth : (if kFebruary < month then month - 3 else month + 9) = shiftedMonth month := rfl
  have hshift : shiftedYear year month - 399 = shiftedYear year month - (400 - 1) := rfl
  rw [daysFromCivil, hyear, hmonth, hshift, hera]
  omega

theorem isLeapYear_iff (year : Int) :
    isLeapYear year ↔ year % 4 = 0 ∧ year % 100 ≠ 0 ∨ year % 400 = 0 := by
  have hmod (divisor : Int) : year.tmod divisor = 0 ↔ year % divisor = 0 := by
    rw [← Int.dvd_iff_tmod_eq_zero, ← Int.dvd_iff_emod_eq_zero]
  simp [isLeapYear, hmod]

theorem daysInMonth_february (year : Int) : daysInMonth year 2 = if isLeapYear year then 29 else 28 := by
  cases hleap : isLeapYear year <;>
    simp [daysInMonth, hleap, kMonthsPerYear, kFebruary, kFebruaryLeapDays, kDays]

theorem daysInMonth_of_ne {month : Nat} (year : Int) (hfirst : 1 ≤ month) (hlast : month ≤ 12)
    (hfebruary : month ≠ 2) : daysInMonth year month = kDays.getD (month - 1) 0 := by
  interval_cases month <;> first | rfl | exact absurd rfl hfebruary

theorem daysInMonth_le (year : Int) (month : Nat) : daysInMonth year month ≤ 31 := by
  by_cases hrange : 1 ≤ month ∧ month ≤ 12
  · obtain ⟨hfirst, hlast⟩ := hrange
    by_cases hfebruary : month = 2
    · rw [hfebruary, daysInMonth_february]
      split_ifs <;> decide
    · rw [daysInMonth_of_ne year hfirst hlast hfebruary]
      interval_cases month <;> decide
  · have hnone : (decide (month < 1) || decide (kMonthsPerYear < month)) = true := by
      rw [kMonthsPerYear, Bool.or_eq_true, decide_eq_true_eq, decide_eq_true_eq]
      omega
    rw [daysInMonth, if_pos hnone]
    exact Nat.zero_le _

theorem daysFromCivil_march (year : Int) :
    daysFromCivil year 3 1 = daysFromCivil year 2 1 + daysInMonth year 2 := by
  have hleap := isLeapYear_iff year
  have hmarch : shiftedYear year 3 = year ∧ shiftedMonth 3 = 0 := ⟨rfl, rfl⟩
  have hfebruary : shiftedYear year 2 = year - 1 ∧ shiftedMonth 2 = 11 := ⟨rfl, rfl⟩
  rw [daysFromCivil_eq _ _ le_rfl, daysFromCivil_eq _ _ le_rfl, daysInMonth_february, hmarch.1, hmarch.2,
    hfebruary.1, hfebruary.2]
  split_ifs with hyear
  · have hrule := hleap.mp hyear
    omega
  · have hrule := mt hleap.mpr hyear
    omega

theorem daysFromCivil_next_month (year : Int) {month : Nat} (hfirst : 1 ≤ month) (hlast : month < 12) :
    daysFromCivil year (month + 1) 1 = daysFromCivil year month 1 + daysInMonth year month := by
  by_cases hfebruary : month = 2
  · rw [hfebruary]
    exact daysFromCivil_march year
  · have hlength := daysInMonth_of_ne year hfirst hlast.le hfebruary
    have hyear : shiftedYear year (month + 1) = shiftedYear year month := by
      rw [shiftedYear, shiftedYear]
      split_ifs <;> omega
    have hdays : (153 * shiftedMonth (month + 1) + 2) / 5 =
        (153 * shiftedMonth month + 2) / 5 + kDays.getD (month - 1) 0 := by
      interval_cases month <;> first | rfl | exact absurd rfl hfebruary
    rw [daysFromCivil_eq _ _ le_rfl, daysFromCivil_eq _ _ le_rfl, hlength, hyear, hdays]
    omega

theorem daysFromCivil_next_year (year : Int) :
    daysFromCivil (year + 1) 1 1 = daysFromCivil year 12 1 + daysInMonth year 12 := by
  have hlength : daysInMonth year 12 = 31 := rfl
  rw [daysFromCivil_eq _ _ le_rfl, daysFromCivil_eq _ _ le_rfl, hlength]
  simp only [shiftedYear, shiftedMonth]
  norm_num
  omega

/-- The first day of a month; months are counted through from the year zero on. -/
def monthStart (number : Int) : Int := daysFromCivil (number / 12) ((number % 12).toNat + 1) 1

def lengthOf (number : Int) : Nat := daysInMonth (number / 12) ((number % 12).toNat + 1)

theorem monthStart_succ (number : Int) : monthStart (number + 1) = monthStart number + lengthOf number := by
  rw [monthStart, monthStart, lengthOf]
  by_cases hlast : number % 12 = 11
  · have hyear : (number + 1) / 12 = number / 12 + 1 := by omega
    have hfirst : (number + 1) % 12 = 0 := by omega
    rw [hyear, hfirst, hlast]
    exact daysFromCivil_next_year _
  · have hyear : (number + 1) / 12 = number / 12 := by omega
    have hmonth : ((number + 1) % 12).toNat = (number % 12).toNat + 1 := by omega
    rw [hyear, hmonth]
    exact daysFromCivil_next_month _ (by omega) (by omega)

theorem monthStart_mono {number other : Int} (hle : number ≤ other) :
    monthStart number ≤ monthStart other := by
  obtain ⟨count, rfl⟩ : ∃ count : Nat, other = number + count := ⟨(other - number).toNat, by omega⟩
  induction count with
  | zero => simp
  | succ count ih =>
    have hnext := monthStart_succ (number + count)
    rw [Nat.cast_add, Nat.cast_one, ← Int.add_assoc]
    omega

def IsCalendarDate (year : Int) (month day : Nat) : Prop :=
  1 ≤ month ∧ month ≤ 12 ∧ 1 ≤ day ∧ day ≤ daysInMonth year month

instance (year : Int) (month day : Nat) : Decidable (IsCalendarDate year month day) :=
  inferInstanceAs (Decidable (_ ∧ _ ∧ _ ∧ _))

def monthNumber (year : Int) (month : Nat) : Int := 12 * year + month - 1

variable {month day : Nat}

theorem daysFromCivil_monthNumber {year : Int} (hdate : IsCalendarDate year month day) :
    daysFromCivil year month day = monthStart (monthNumber year month) + day - 1 ∧
      day ≤ lengthOf (monthNumber year month) := by
  obtain ⟨hfirst, hlast, hday, hlength⟩ := hdate
  have hyear : monthNumber year month / 12 = year := by
    rw [monthNumber]
    omega
  have hmonth : (monthNumber year month % 12).toNat + 1 = month := by
    rw [monthNumber]
    omega
  rw [monthStart, lengthOf, hyear, hmonth, daysFromCivil_eq _ _ hday, daysFromCivil_eq _ _ le_rfl]
  exact ⟨by omega, hlength⟩

theorem daysFromCivil_lt {year other : Int} {month day month' day' : Nat}
    (hdate : IsCalendarDate year month day) (hother : IsCalendarDate other month' day')
    (hlater : year < other ∨ year = other ∧ (month < month' ∨ month = month' ∧ day < day')) :
    daysFromCivil year month day < daysFromCivil other month' day' := by
  obtain ⟨hnumber, hlength⟩ := daysFromCivil_monthNumber hdate
  obtain ⟨hnumber', -⟩ := daysFromCivil_monthNumber hother
  obtain ⟨hfirst, hlast, hday, -⟩ := hdate
  obtain ⟨hfirst', hlast', hday', -⟩ := hother
  rcases hlater with hyear | ⟨rfl, hmonth | ⟨rfl, hdays⟩⟩
  · have hnext := monthStart_succ (monthNumber year month)
    have hmono : monthStart (monthNumber year month + 1) ≤ monthStart (monthNumber other month') := by
      apply monthStart_mono
      rw [monthNumber, monthNumber]
      omega
    omega
  · have hnext := monthStart_succ (monthNumber year month)
    have hmono : monthStart (monthNumber year month + 1) ≤ monthStart (monthNumber year month') := by
      apply monthStart_mono
      rw [monthNumber, monthNumber]
      omega
    omega
  · omega

/-- The centuries, the groups of four years and the years of an era that have passed, and the day of the
year. A year of 366 days ends its group, unless the group ends its century; the last century has such a
year too. -/
structure InEra (centuries groups years doy : Nat) : Prop where
  centuries_le : centuries ≤ 3
  groups_le : groups ≤ 24
  years_le : years ≤ 3
  doy_lt : doy < 365 ∨ doy = 365 ∧ years = 3 ∧ (groups < 24 ∨ centuries = 3)

theorem exists_inEra {doe : Nat} (hdoe : doe < 146097) : ∃ centuries groups years doy,
    InEra centuries groups years doy ∧ doe = 36524 * centuries + 1461 * groups + 365 * years + doy := by
  have hcenturies : ∃ centuries rest, centuries ≤ 3 ∧ doe = 36524 * centuries + rest ∧
      (rest < 36524 ∨ centuries = 3 ∧ rest = 36524) := by
    by_cases hlast : doe = 146096
    · exact ⟨3, 36524, by omega⟩
    · exact ⟨doe / 36524, doe % 36524, by omega⟩
  obtain ⟨centuries, rest, hcenturies, hdoe, hrest⟩ := hcenturies
  have hyears : ∃ years doy, years ≤ 3 ∧ rest % 1461 = 365 * years + doy ∧
      (doy < 365 ∨ years = 3 ∧ doy = 365) := by
    by_cases hlast : rest % 1461 = 1460
    · exact ⟨3, 365, by omega⟩
    · exact ⟨rest % 1461 / 365, rest % 1461 % 365, by omega⟩
  obtain ⟨years, doy, hyears, hgroup, hdoy⟩ := hyears
  exact ⟨centuries, rest / 1461, years, doy, ⟨hcenturies, by omega, hyears, by omega⟩, by omega⟩

theorem yearOfEra_eq {centuries groups years doy doe : Nat} (hera : InEra centuries groups years doy)
    (hdoe : doe = 36524 * centuries + 1461 * groups + 365 * years + doy) :
    (doe - doe / 1460 + doe / 36524 - doe / 146096) / 365 = 100 * centuries + 4 * groups + years := by
  obtain ⟨hcenturies, hgroups, hyears, hdoy⟩ := hera
  by_cases hlast : doe = 146096
  · have hparts : centuries = 3 ∧ groups = 24 ∧ years = 3 := by omega
    omega
  · have hera : doe / 146096 = 0 := by omega
    have hcentury : doe / 36524 = centuries := by omega
    have hgroup : doe / 1460 = 25 * centuries + groups +
        (24 * centuries + groups + 365 * years + doy) / 1460 := by omega
    rw [hera, hcentury, hgroup]
    omega

def monthOf (doy : Nat) : Nat :=
  if (5 * doy + 2) / 153 < 10 then (5 * doy + 2) / 153 + 3 else (5 * doy + 2) / 153 - 9

def dayOf (doy : Nat) : Nat := doy - (153 * ((5 * doy + 2) / 153) + 2) / 5 + 1

theorem shiftedMonth_length {place : Nat} (hplace : place < 11) :
    (153 * (place + 1) + 2) / 5 = (153 * place + 2) / 5 + kDays.getD ((place + 2) % 12) 0 := by
  interval_cases place <;> rfl

theorem isCalendarDate_of_doy {shifted : Int} {doy : Nat}
    (hdoy : doy < 365 ∨ doy = 365 ∧ isLeapYear (shifted + 1)) :
    IsCalendarDate (shifted + if monthOf doy ≤ 2 then 1 else 0) (monthOf doy) (dayOf doy) := by
  obtain ⟨place, hplace⟩ : ∃ place, (5 * doy + 2) / 153 = place := ⟨_, rfl⟩
  rw [monthOf, dayOf, hplace]
  by_cases hlast : place = 11
  · -- February closes the shifted year
    subst hlast
    refine ⟨by decide, by decide, Nat.succ_pos _, ?_⟩
    change _ ≤ daysInMonth (shifted + 1) 2
    rw [daysInMonth_february]
    rcases hdoy with hcommon | ⟨rfl, hleap⟩
    · split_ifs <;> omega
    · rw [if_pos hleap]
  · have hbelow : place < 11 := by omega
    have hlength := shiftedMonth_length hbelow
    have hmonth : (if place < 10 then place + 3 else place - 9) = (place + 2) % 12 + 1 := by
      split_ifs <;> omega
    rw [hmonth]
    refine ⟨Nat.succ_pos _, by omega, Nat.succ_pos _, ?_⟩
    rw [daysInMonth_of_ne _ (Nat.succ_pos _) (by omega) (by omega), Nat.succ_sub_one]
    omega

theorem daysOfYears_eq {centuries groups years doy : Nat} (hera : InEra centuries groups years doy) :
    365 * (100 * centuries + 4 * groups + years) + (100 * centuries + 4 * groups + years) / 4 -
      (100 * centuries + 4 * groups + years) / 100 = 36524 * centuries + 1461 * groups + 365 * years := by
  obtain ⟨-, hgroups, hyears, -⟩ := hera
  have hfour : (100 * centuries + 4 * groups + years) / 4 = 25 * centuries + groups := by omega
  have hhundred : (100 * centuries + 4 * groups + years) / 100 = centuries := by omega
  omega

/-- A year of 366 days is a leap year; the leap day is in the calendar year behind the shifted one. -/
theorem isLeapYear_of_inEra {centuries groups years : Nat} (era : Int)
    (hera : InEra centuries groups years 365) :
    isLeapYear ((100 * centuries + 4 * groups + years : Nat) + era * 400 + 1) := by
  obtain ⟨hcenturies, hgroups, -, hdoy⟩ := hera
  rw [isLeapYear_iff]
  rcases hdoy with hcommon | ⟨-, rfl, hgroup⟩
  · exact absurd hcommon (Nat.lt_irrefl 365)
  · push_cast
    omega

theorem civilFromDays_eq (days : Int) : ∃ shifted doy,
    (doy < 365 ∨ doy = 365 ∧ isLeapYear (shifted + 1)) ∧
    civilFromDays days = (shifted + (if monthOf doy ≤ 2 then 1 else 0), monthOf doy, dayOf doy) ∧
      365 * shifted + shifted / 4 - shifted / 100 + shifted / 400 + doy - 719468 = days := by
  have hera := tdiv_shifted (days + 719468) (by decide : (0 : Int) < 146097)
  have hshift : days + 719468 - 146096 = days + 719468 - (146097 - 1) := rfl
  obtain ⟨era, doe, hdoe, hdays, hdiv, hrest⟩ : ∃ (era : Int) (doe : Nat), doe < 146097 ∧
      days = era * 146097 + doe - 719468 ∧ (days + 719468) / 146097 = era ∧
        (days + 719468 - era * 146097).toNat = doe :=
    ⟨(days + 719468) / 146097, ((days + 719468) % 146097).toNat, by omega, by omega, rfl, by omega⟩
  obtain ⟨centuries, groups, years, doy, hin, hsplit⟩ := exists_inEra hdoe
  have hyoe := yearOfEra_eq hin hsplit
  have hpassed := daysOfYears_eq hin
  refine ⟨(100 * centuries + 4 * groups + years : Nat) + era * 400, doy, ?_, ?_, ?_⟩
  · rcases hin.doy_lt with hcommon | ⟨rfl, -⟩
    · exact .inl hcommon
    · exact .inr ⟨rfl, isLeapYear_of_inEra era hin⟩
  · have hleft : doe - (36524 * centuries + 1461 * groups + 365 * years) = doy := by omega
    rw [civilFromDays]
    simp only [hshift, hera, hdiv, hrest, hyoe, hpassed, hleft]
    rfl
  · obtain ⟨hcenturies, hgroups, hyears, -⟩ := hin
    have hfour : ((100 * centuries + 4 * groups + years : Nat) + era * 400) / 4 =
        25 * centuries + groups + era * 100 := by omega
    have hhundred : ((100 * centuries + 4 * groups + years : Nat) + era * 400) / 100 =
        centuries + era * 4 := by omega
    have hfull : ((100 * centuries + 4 * groups + years : Nat) + era * 400) / 400 = era := by omega
    rw [hfour, hhundred, hfull, hdays, hsplit]
    push_cast
    ring

theorem civilFromDays_spec (days : Int) :
    IsCalendarDate (civilFromDays days).1 (civilFromDays days).2.1 (civilFromDays days).2.2 ∧
      daysFromCivil (civilFromDays days).1 (civilFromDays days).2.1 (civilFromDays days).2.2 = days := by
  obtain ⟨shifted, doy, hdoy, hcivil, hdays⟩ := civilFromDays_eq days
  have hdate := isCalendarDate_of_doy hdoy
  rw [hcivil]
  refine ⟨hdate, ?_⟩
  have hyear : shiftedYear (shifted + if monthOf doy ≤ 2 then 1 else 0) (monthOf doy) = shifted := by
    rw [shiftedYear]
    split_ifs <;> omega
  have hmonth : shiftedMonth (monthOf doy) = (5 * doy + 2) / 153 := by
    rw [shiftedMonth, monthOf]
    split_ifs <;> omega
  rw [daysFromCivil_eq _ _ hdate.2.2.1]
  rw [hyear, hmonth, dayOf]
  omega

theorem civilFromDays_daysFromCivil {year : Int} (hdate : IsCalendarDate year month day) :
    civilFromDays (daysFromCivil year month day) = (year, month, day) := by
  obtain ⟨hfound, hsame⟩ := civilFromDays_spec (daysFromCivil year month day)
  rcases hcivil : civilFromDays (daysFromCivil year month day) with ⟨year', month', day'⟩
  rw [hcivil] at hfound hsame
  change IsCalendarDate year' month' day' at hfound
  -- two dates with one number are the same
  have hnot := mt (daysFromCivil_lt hdate hfound) hsame.not_gt
  have hnot' := mt (daysFromCivil_lt hfound hdate) hsame.not_lt
  simp only [Prod.mk.injEq]
  omega

/-- The seconds before they become a `uint32_t`. -/
def exactSeconds (dt : DateTime) : Int :=
  daysFromCivil dt.year dt.month dt.day * kSecondsPerDay + dt.hour * kSecondsPerHour +
    dt.minute * kSecondsPerMinute + dt.second

def IsDateTime (dt : DateTime) : Prop :=
  IsCalendarDate dt.year dt.month dt.day ∧ isValidTime dt.hour dt.minute dt.second = true

def IsAccepted (dt : DateTime) : Prop :=
  isValidDate dt.year dt.month dt.day = true ∧ isValidTime dt.hour dt.minute dt.second = true

def fields (dt : DateTime) : List Int := [dt.year, dt.month, dt.day, dt.hour, dt.minute, dt.second]

variable {dt other : DateTime}

theorem isValidTime_iff {hour minute second : Nat} :
    isValidTime hour minute second ↔ hour ≤ 23 ∧ minute ≤ 59 ∧ second ≤ 59 := by
  simp only [isValidTime, Bool.and_eq_true, decide_eq_true_eq, and_assoc]
  rfl

theorem isValidDate_iff {year : Int} : isValidDate year month day ↔
    1970 ≤ year ∧ year ≤ 2100 ∧ IsCalendarDate year month day := by
  have hmonth : daysInMonth year month ≠ 0 → 1 ≤ month ∧ month ≤ 12 := by
    rw [daysInMonth, kMonthsPerYear]
    intro hlength
    by_contra hout
    apply hlength
    simp
    omega
  simp only [isValidDate, Bool.and_eq_true, decide_eq_true_eq, IsCalendarDate]
  rw [kMinYear, kMaxYear]
  constructor
  · rintro ⟨⟨⟨⟨hearly, hlate⟩, hlength⟩, hday⟩, hdays⟩
    obtain ⟨hfirst, hlast⟩ := hmonth (by simpa using hlength)
    exact ⟨hearly, hlate, hfirst, hlast, hday, hdays⟩
  · rintro ⟨hearly, hlate, -, -, hday, hdays⟩
    have hlength : daysInMonth year month ≠ 0 := by omega
    exact ⟨⟨⟨⟨hearly, hlate⟩, by simpa using hlength⟩, hday⟩, hdays⟩

theorem IsAccepted.isDateTime (haccepted : IsAccepted dt) : IsDateTime dt :=
  ⟨(isValidDate_iff.mp haccepted.1).2.2, haccepted.2⟩

theorem daysFromCivil_bounds {year : Int} (hdate : IsCalendarDate year month day)
    (hearly : 1970 ≤ year) (hlate : year ≤ 2100) :
    0 ≤ daysFromCivil year month day ∧ daysFromCivil year month day ≤ 47846 := by
  have hfirst : IsCalendarDate 1969 12 31 := by decide
  have hlast : IsCalendarDate 2101 1 1 := by decide
  have habove := daysFromCivil_lt hfirst hdate (.inl (by omega))
  have hbelow := daysFromCivil_lt hdate hlast (.inl (by omega))
  have hbounds : daysFromCivil 1969 12 31 = -1 ∧ daysFromCivil 2101 1 1 = 47847 := ⟨rfl, rfl⟩
  omega

theorem IsAccepted.exactSeconds_bounds (haccepted : IsAccepted dt) :
    0 ≤ exactSeconds dt ∧ exactSeconds dt < 4294967296 := by
  obtain ⟨hearly, hlate, hdate⟩ := isValidDate_iff.mp haccepted.1
  obtain ⟨hhour, hminute, hsecond⟩ := isValidTime_iff.mp haccepted.2
  obtain ⟨hlow, hhigh⟩ := daysFromCivil_bounds hdate hearly hlate
  rw [exactSeconds, kSecondsPerDay, kSecondsPerHour, kSecondsPerMinute]
  omega

theorem toUnixSec_eq (dt : DateTime) : (toUnixSec dt : Int) = exactSeconds dt % 4294967296 := by
  have hnonneg : 0 ≤ exactSeconds dt % 4294967296 := Int.emod_nonneg _ (by decide)
  exact Int.toNat_of_nonneg hnonneg

theorem IsAccepted.toUnixSec_eq (haccepted : IsAccepted dt) : (toUnixSec dt : Int) = exactSeconds dt := by
  obtain ⟨hlow, hhigh⟩ := haccepted.exactSeconds_bounds
  rw [TimeMath.toUnixSec_eq, Int.emod_eq_of_lt hlow hhigh]

theorem isDateTime_fromUnixSec (unixSec : Nat) : IsDateTime (fromUnixSec unixSec) := by
  refine ⟨(civilFromDays_spec _).1, isValidTime_iff.mpr ?_⟩
  dsimp only [fromUnixSec]
  omega

theorem exactSeconds_fromUnixSec (unixSec : Nat) : exactSeconds (fromUnixSec unixSec) = unixSec := by
  have hdays := (civilFromDays_spec (unixSec / 86400 : Nat)).2
  dsimp only [exactSeconds, fromUnixSec]
  rw [hdays, kSecondsPerDay, kSecondsPerHour, kSecondsPerMinute]
  omega

theorem toUnixSec_fromUnixSec (unixSec : UInt32) : toUnixSec (fromUnixSec unixSec.toNat) = unixSec.toNat := by
  have hword := unixSec.toNat_lt
  have hseconds := toUnixSec_eq (fromUnixSec unixSec.toNat)
  rw [exactSeconds_fromUnixSec] at hseconds
  omega

theorem fromUnixSec_of_exactSeconds {unixSec : Nat} (hdate : IsDateTime dt)
    (hseconds : exactSeconds dt = unixSec) : fromUnixSec unixSec = dt := by
  obtain ⟨year, month, day, hour, minute, second⟩ := dt
  obtain ⟨hcalendar, htime⟩ := hdate
  obtain ⟨hhour, hminute, hsecond⟩ := isValidTime_iff.mp htime
  rw [exactSeconds, kSecondsPerDay, kSecondsPerHour, kSecondsPerMinute] at hseconds
  dsimp only at hcalendar hhour hminute hsecond hseconds
  have hdays : daysFromCivil year month day = (unixSec / 86400 : Nat) := by omega
  have hcivil := civilFromDays_daysFromCivil hcalendar
  rw [hdays] at hcivil hseconds
  rw [fromUnixSec, hcivil]
  simp only [DateTime.mk.injEq, true_and]
  omega

theorem exactSeconds_lt (hdate : IsDateTime dt) (hother : IsDateTime other)
    (hlater : fields dt < fields other) : exactSeconds dt < exactSeconds other := by
  obtain ⟨hcalendar, htime⟩ := hdate
  obtain ⟨hcalendar', htime'⟩ := hother
  obtain ⟨hhour, hminute, hsecond⟩ := isValidTime_iff.mp htime
  obtain ⟨hhour', hminute', hsecond'⟩ := isValidTime_iff.mp htime'
  simp only [fields, List.cons_lt_cons_iff, List.not_lt_nil, and_false, or_false, Nat.cast_lt,
    Nat.cast_inj] at hlater
  rw [exactSeconds, exactSeconds, kSecondsPerDay, kSecondsPerHour, kSecondsPerMinute]
  by_cases hdays : dt.year = other.year ∧ dt.month = other.month ∧ dt.day = other.day
  · obtain ⟨hyear, hmonth, hday⟩ := hdays
    rw [hyear, hmonth, hday]
    omega
  · have hdate : dt.year < other.year ∨ dt.year = other.year ∧
        (dt.month < other.month ∨ dt.month = other.month ∧ dt.day < other.day) := by
      omega
    have hless := daysFromCivil_lt hcalendar hcalendar' hdate
    omega

theorem fields_injective (hsame : fields dt = fields other) : dt = other := by
  obtain ⟨year, month, day, hour, minute, second⟩ := dt
  obtain ⟨year', month', day', hour', minute', second'⟩ := other
  simpa [fields] using hsame

theorem exactSeconds_lt_iff (hdate : IsDateTime dt) (hother : IsDateTime other) :
    exactSeconds dt < exactSeconds other ↔ fields dt < fields other := by
  refine ⟨fun hless ↦ ?_, exactSeconds_lt hdate hother⟩
  rcases lt_trichotomy (fields dt) (fields other) with hlater | hsame | hearlier
  · exact hlater
  · rw [fields_injective hsame] at hless
    exact absurd hless (lt_irrefl _)
  · exact absurd (exactSeconds_lt hother hdate hearlier) hless.not_gt

end DhcpServer.Time.TimeMath
