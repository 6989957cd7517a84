import DhcpServer.Library.Numerals
import DhcpServer.Time.Calendar

/-!
# Dates and times as texts

A text is read as a date and a time when it is in one of two forms and its fields are accepted, and what
is written is read back. With the counting of the calendar this makes texts, fields and seconds three
names of the same thing.
-/

namespace DhcpServer.Time.TimeMath

open Library List Option

def IsField (width : Nat) (piece : Bytes) (number : Nat) : Prop :=
  piece.length = width ∧ readNumeral 10 piece = some number

/-- `"YYYY-MM-DD HH:MM"` or `"YYYY-MM-DD HH:MM:SS"`, with a space or a `T` between date and time. -/
def IsForm (text : Bytes) (dt : DateTime) : Prop :=
  ∃ year month day hour minute yearNumber separator seconds,
    text = year ++ 0x2D :: (month ++ 0x2D :: (day ++ separator :: (hour ++ 0x3A :: (minute ++ seconds)))) ∧
      IsField 4 year yearNumber ∧ dt.year = (yearNumber : Int) ∧ IsField 2 month dt.month ∧
        IsField 2 day dt.day ∧ (separator = 0x20 ∨ separator = 0x54) ∧ IsField 2 hour dt.hour ∧
          IsField 2 minute dt.minute ∧
          (seconds = [] ∧ dt.second = 0 ∨ ∃ second, seconds = 0x3A :: second ∧ IsField 2 second dt.second)

variable {text piece : Bytes} {count value number width place : Nat} {dt : DateTime}

theorem parseDigits_eq (text : Bytes) (count value : Nat) : parseDigits text count value =
    if count ≤ text.length then (text.take count).foldlM (readDigit 10) value else none := by
  induction text generalizing count value with
  | nil => cases count <;> rfl
  | cons ch text ih =>
    cases count with
    | zero => rfl
    | succ count =>
      rw [parseDigits, take_succ_cons, foldlM_cons, length_cons]
      by_cases hdigit : 0x30 ≤ ch ∧ ch ≤ 0x39
      · rw [if_pos hdigit, ih, readDigit_ten hdigit]
        simp
      · rw [if_neg hdigit, readDigit_ten_eq_none hdigit]
        simp

theorem parseDigits_eq_some_iff (hwidth : 0 < width) : parseDigits text width 0 = some number ↔
    IsField width (text.take width) number := by
  rw [parseDigits_eq, IsField, length_take, readNumeral]
  by_cases hlength : width ≤ text.length
  · have hne : text.take width ≠ [] := by
      rw [ne_eq, take_eq_nil_iff]
      rintro (hzero | rfl)
      · omega
      · exact absurd (Nat.lt_of_lt_of_le hwidth hlength) (Nat.lt_irrefl 0)
    rw [if_pos hlength, if_neg hne, Nat.min_eq_left hlength]
    simp
  · rw [if_neg hlength]
    refine iff_of_false (by simp) ?_
    rintro ⟨hshort, -⟩
    omega

theorem drop_eq_take_append (place width : Nat) (hplace : place + width < text.length) : text.drop place =
      (text.drop place).take width ++ text.getD (place + width) 0 :: text.drop (place + width + 1) := by
  have hget : text.getD (place + width) 0 = text[place + width] := by
    rw [getD_eq_getElem?_getD, getElem?_eq_getElem hplace, getD_some]
  rw [hget, ← drop_eq_getElem_cons hplace, ← drop_drop, take_append_drop]

structure HasShape (text : Bytes) : Prop where
  length : text.length = 16 ∨ text.length = 19
  first : text.getD 4 0 = 0x2D
  second : text.getD 7 0 = 0x2D
  middle : text.getD 10 0 = 0x20 ∨ text.getD 10 0 = 0x54
  third : text.getD 13 0 = 0x3A
  fourth : text.length = 19 → text.getD 16 0 = 0x3A

structure HasFields (text : Bytes) (dt : DateTime) : Prop where
  year : ∃ number : Nat, dt.year = number ∧ IsField 4 (text.take 4) number
  month : IsField 2 ((text.drop 5).take 2) dt.month
  day : IsField 2 ((text.drop 8).take 2) dt.day
  hour : IsField 2 ((text.drop 11).take 2) dt.hour
  minute : IsField 2 ((text.drop 14).take 2) dt.minute
  second : text.length = 19 ∧ IsField 2 ((text.drop 17).take 2) dt.second ∨ text.length ≠ 19 ∧ dt.second = 0

theorem parseSecond_eq_some_iff : parseSecond text = some number ↔
    text.length = 19 ∧ IsField 2 ((text.drop 17).take 2) number ∨ text.length ≠ 19 ∧ number = 0 := by
  rw [parseSecond, kIsoDateTimeLen]
  by_cases hlong : text.length = 19
  · simp [hlong, parseDigits_eq_some_iff]
  · simp [hlong, eq_comm]

theorem parseFields_eq_some_iff : parseFields text = some dt ↔ HasFields text dt := by
  have hwide : 0 < 4 := by decide
  have htwo : 0 < 2 := by decide
  simp only [parseFields, bind_eq_bind, bind_eq_some_iff, parseDigits_eq_some_iff htwo,
    parseDigits_eq_some_iff hwide, parseSecond_eq_some_iff, Option.some.injEq]
  constructor
  · rintro ⟨year, hyear, month, hmonth, day, hday, hour, hhour, minute, hminute, second, hsecond, rfl⟩
    exact ⟨⟨year, rfl, hyear⟩, hmonth, hday, hhour, hminute, hsecond⟩
  · rintro ⟨⟨year, hnumber, hyear⟩, hmonth, hday, hhour, hminute, hsecond⟩
    refine ⟨year, hyear, _, hmonth, _, hday, _, hhour, _, hminute, _, hsecond, ?_⟩
    rw [← hnumber]

theorem parseDateTime_eq_some_iff_places :
    parseDateTime text = some dt ↔ HasShape text ∧ HasFields text dt ∧ IsAccepted dt := by
  have hshape : HasShape text ↔ ¬(text.length ≠ 16 ∧ text.length ≠ 19) ∧
      ¬(text.getD 4 0 ≠ 0x2D ∨ text.getD 7 0 ≠ 0x2D) ∧ ¬(text.getD 10 0 ≠ 0x20 ∧ text.getD 10 0 ≠ 0x54) ∧
        ¬text.getD 13 0 ≠ 0x3A ∧ ¬(text.length = 19 ∧ text.getD 16 0 ≠ 0x3A) := by
    constructor
    · rintro ⟨hlength, hfirst, hsecond, hmiddle, hthird, hfourth⟩
      tauto
    · rintro ⟨hlength, hdashes, hblank, hcolon, hlast⟩
      exact ⟨by omega, by tauto, by tauto, by tauto, by tauto, by tauto⟩
  rw [hshape, ← parseFields_eq_some_iff, parseDateTime, kIsoDateLen, kIsoDateTimeLen, IsAccepted]
  split_ifs with hlength hdashes hblank hcolon hlast
  · exact iff_of_false id fun hall ↦ hall.1.1 hlength
  · exact iff_of_false id fun hall ↦ hall.1.2.1 hdashes
  · exact iff_of_false id fun hall ↦ hall.1.2.2.1 hblank
  · exact iff_of_false id fun hall ↦ hall.1.2.2.2.1 hcolon
  · exact iff_of_false id fun hall ↦ hall.1.2.2.2.2 hlast
  · rw [and_iff_right ⟨hlength, hdashes, hblank, hcolon, hlast⟩]
    rcases parseFields text with _ | found
    · simp
    · dsimp only
      constructor
      · intro hfound
        split_ifs at hfound with hdate htime
        cases hfound
        simp only [Bool.not_eq_true', Bool.not_eq_false] at hdate htime
        exact ⟨rfl, hdate, htime⟩
      · rintro ⟨hsame, hdate, htime⟩
        cases hsame
        rw [hdate, htime]
        rfl

theorem isForm_iff_places : IsForm text dt ↔ HasShape text ∧ HasFields text dt := by
  constructor
  · rintro ⟨year, month, day, hour, minute, number, separator, seconds, rfl, hyear, hnumber, hmonth, hday,
      hseparator, hhour, hminute, hseconds⟩
    obtain ⟨y₁, y₂, y₃, y₄, rfl⟩ := length_eq_four.mp hyear.1
    obtain ⟨m₁, m₂, rfl⟩ := length_eq_two.mp hmonth.1
    obtain ⟨d₁, d₂, rfl⟩ := length_eq_two.mp hday.1
    obtain ⟨h₁, h₂, rfl⟩ := length_eq_two.mp hhour.1
    obtain ⟨n₁, n₂, rfl⟩ := length_eq_two.mp hminute.1
    rcases hseconds with ⟨rfl, hzero⟩ | ⟨second, rfl, hsecond⟩
    · exact ⟨⟨.inl rfl, rfl, rfl, hseparator, rfl, fun hlong ↦ by cases hlong⟩,
        ⟨number, hnumber, hyear⟩, hmonth, hday, hhour, hminute, .inr ⟨by simp, hzero⟩⟩
    · obtain ⟨s₁, s₂, rfl⟩ := length_eq_two.mp hsecond.1
      exact ⟨⟨.inr rfl, rfl, rfl, hseparator, rfl, fun _ ↦ rfl⟩,
        ⟨number, hnumber, hyear⟩, hmonth, hday, hhour, hminute, .inl ⟨rfl, hsecond⟩⟩
  · rintro ⟨⟨hlength, hfirst, hsecond, hmiddle, hthird, hfourth⟩,
      ⟨⟨number, hnumber, hyear⟩, hmonth, hday, hhour, hminute, hseconds⟩⟩
    have hyearCut := drop_eq_take_append 0 4 (by omega : 0 + 4 < text.length)
    have hmonthCut := drop_eq_take_append 5 2 (by omega : 5 + 2 < text.length)
    have hdayCut := drop_eq_take_append 8 2 (by omega : 8 + 2 < text.length)
    have hhourCut := drop_eq_take_append 11 2 (by omega : 11 + 2 < text.length)
    simp only [Nat.reduceAdd, drop_zero, hfirst, hsecond, hthird] at hyearCut hmonthCut hdayCut hhourCut
    have hminuteCut : text.drop 14 = (text.drop 14).take 2 ++ text.drop 16 := by
      rw [← drop_drop (i := 2) (j := 14), take_append_drop]
    refine ⟨text.take 4, (text.drop 5).take 2, (text.drop 8).take 2, (text.drop 11).take 2,
      (text.drop 14).take 2, number, text.getD 10 0, text.drop 16, ?_, hyear, hnumber, hmonth, hday, hmiddle,
      hhour, hminute, ?_⟩
    · rw [← hminuteCut, ← hhourCut, ← hdayCut, ← hmonthCut, ← hyearCut]
    · rcases hseconds with ⟨hlong, hsecondField⟩ | ⟨hshort, hzero⟩
      · right
        have hlast := drop_eq_take_append 16 0 (by omega : 16 + 0 < text.length)
        simp only [Nat.add_zero, take_zero, nil_append, hfourth hlong, Nat.reduceAdd] at hlast
        have htake : (text.drop 17).take 2 = text.drop 17 := take_of_length_le (by simp; omega)
        exact ⟨text.drop 17, hlast, htake ▸ hsecondField⟩
      · exact .inl ⟨drop_eq_nil_iff.mpr (by omega), hzero⟩

theorem parseDateTime_eq_some_iff : parseDateTime text = some dt ↔ IsForm text dt ∧ IsAccepted dt := by
  rw [parseDateTime_eq_some_iff_places, isForm_iff_places, and_assoc]

theorem foldlM_readDigit_zeros (count : Nat) :
    (List.replicate count 0x30).foldlM (readDigit 10) 0 = some 0 := by
  induction count with
  | zero => rfl
  | succ count ih => exact ih

theorem zeroPadded_eq (width number : Nat) : Core.LogFileFormat.zeroPadded width number =
    List.replicate (width - (numeral 10 number).length) 0x30 ++ numeral 10 number := by
  have hsign : ¬(number : Int) < 0 := by omega
  rw [Core.LogFileFormat.zeroPadded, if_neg hsign]
  rfl

theorem isField_zeroPadded (hwidth : 0 < width) (hnumber : number < 10 ^ width) :
    IsField width (Core.LogFileFormat.zeroPadded width number) number := by
  have hlength : (numeral 10 number).length ≤ width := length_numeral_le (by decide) hwidth hnumber
  have hread := readNumeral_numeral (by decide : 1 < 10) (by decide) number
  rw [readNumeral, if_neg (numeral_ne_nil 10 number)] at hread
  rw [zeroPadded_eq]
  refine ⟨by rw [length_append, length_replicate, Nat.sub_add_cancel hlength], ?_⟩
  rw [readNumeral, if_neg (by simp [numeral_ne_nil]), foldlM_append, foldlM_readDigit_zeros]
  exact hread

theorem isForm_format (haccepted : IsAccepted dt) : IsForm (format dt) dt := by
  obtain ⟨hearly, hlate, hfirst, hlast, hday, hlength⟩ := isValidDate_iff.mp haccepted.1
  obtain ⟨hhour, hminute, hsecond⟩ := isValidTime_iff.mp haccepted.2
  have hdays := daysInMonth_le dt.year dt.month
  obtain ⟨number, hnumber⟩ : ∃ number : Nat, dt.year = number := ⟨dt.year.toNat, by omega⟩
  have hyearField : IsField 4 (Core.LogFileFormat.zeroPadded 4 number) number :=
    isField_zeroPadded (by decide) (by omega)
  have hfield (value : Nat) (hvalue : value < 100) :
      IsField 2 (Core.LogFileFormat.zeroPadded 2 value) value := isField_zeroPadded (by decide) hvalue
  have hmonthField := hfield dt.month (by omega)
  have hdayField := hfield dt.day (by omega)
  have hhourField := hfield dt.hour (by omega)
  have hminuteField := hfield dt.minute (by omega)
  have hsecondField := hfield dt.second (by omega)
  refine ⟨_, _, _, _, _, number, 0x20, _, ?_, hyearField, hnumber, hmonthField, hdayField, .inl rfl,
    hhourField, hminuteField, .inr ⟨_, rfl, hsecondField⟩⟩
  rw [format, hnumber, take_of_length_le]
  · simp only [append_assoc]
    rfl
  · simp only [length_append, hyearField.1, hmonthField.1, hdayField.1, hhourField.1, hminuteField.1,
      hsecondField.1]
    decide

theorem parseDateTime_format (haccepted : IsAccepted dt) : parseDateTime (format dt) = some dt :=
  parseDateTime_eq_some_iff.mpr ⟨isForm_format haccepted, haccepted⟩

theorem isAccepted_fromUnixSec_iff (unixSec : Nat) :
    IsAccepted (fromUnixSec unixSec) ↔ (fromUnixSec unixSec).year ≤ kMaxYear := by
  obtain ⟨hdate, htime⟩ := isDateTime_fromUnixSec unixSec
  have hearly : 1970 ≤ (fromUnixSec unixSec).year := by
    by_contra hbefore
    have hless := daysFromCivil_lt hdate (by decide : IsCalendarDate 1970 1 1) (.inl (not_le.mp hbefore))
    have hdays : daysFromCivil (fromUnixSec unixSec).year (fromUnixSec unixSec).month
        (fromUnixSec unixSec).day = (unixSec / 86400 : Nat) := (civilFromDays_spec _).2
    have hzero : daysFromCivil 1970 1 1 = 0 := rfl
    omega
  rw [IsAccepted, isValidDate_iff, and_iff_left htime, and_iff_right hearly, and_iff_left hdate, kMaxYear]

/-- Texts, fields and seconds name the same dates and times. -/
theorem calendar_is_bijection : (∀ unixSec : UInt32, toUnixSec (fromUnixSec unixSec.toNat) = unixSec.toNat ∧
      IsDateTime (fromUnixSec unixSec.toNat) ∧
        (IsAccepted (fromUnixSec unixSec.toNat) ↔ (fromUnixSec unixSec.toNat).year ≤ kMaxYear)) ∧
    (∀ dt, IsAccepted dt → (toUnixSec dt : Int) = exactSeconds dt ∧ fromUnixSec (toUnixSec dt) = dt ∧
      parseDateTime (format dt) = some dt) ∧
    (∀ dt other, IsAccepted dt → IsAccepted other →
      (toUnixSec dt < toUnixSec other ↔ fields dt < fields other)) ∧
    (∀ text dt, parseDateTime text = some dt ↔ IsForm text dt ∧ IsAccepted dt) := by
  refine ⟨fun unixSec ↦ ?_, fun dt haccepted ↦ ?_, fun dt other haccepted hother ↦ ?_, fun text dt ↦ ?_⟩
  · exact ⟨toUnixSec_fromUnixSec unixSec, isDateTime_fromUnixSec _, isAccepted_fromUnixSec_iff _⟩
  · have hseconds := haccepted.toUnixSec_eq
    exact ⟨hseconds, fromUnixSec_of_exactSeconds haccepted.isDateTime hseconds.symm,
      parseDateTime_format haccepted⟩
  · rw [← exactSeconds_lt_iff haccepted.isDateTime hother.isDateTime, ← haccepted.toUnixSec_eq,
      ← hother.toUnixSec_eq, Nat.cast_lt]
  · exact parseDateTime_eq_some_iff

end DhcpServer.Time.TimeMath
