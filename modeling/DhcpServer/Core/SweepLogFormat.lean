import DhcpServer.Time.DateTexts
import Mathlib.Data.List.Sort

/-!
# The logs of the sweeps

Every sweep writes a file of its own, named by the minute it started in, and only the newest files are
kept. What goes is told by a sort of the names, which is a sort by time because every field has its own
width.
-/

namespace DhcpServer.Core.SweepLogFormat

open Library LogFileFormat Time.TimeMath List

def kSweepLogSuffix : Bytes := ascii ".log"

structure Tm where
  tmYear : Int
  tmMon : Int
  tmMday : Int
  tmHour : Int
  tmMin : Int

/-- `"%04d.%02d.%02d_%02d.%02d%s"`, printed into 80 bytes, the last of them a zero. -/
def sweepLogName (moment : Tm) : Bytes :=
  (zeroPadded 4 (moment.tmYear + 1900) ++ ascii "." ++ zeroPadded 2 (moment.tmMon + 1) ++ ascii "." ++
    zeroPadded 2 moment.tmMday ++ ascii "_" ++ zeroPadded 2 moment.tmHour ++ ascii "." ++
    zeroPadded 2 moment.tmMin ++ kSweepLogSuffix).take 79

def digits : List Nat := [0, 1, 2, 3, 5, 6, 8, 9, 11, 12, 14, 15]

def isSweepLogName (name : Bytes) : Bool :=
  name.length = 20 && name.getD 4 0 = 0x2E && name.getD 7 0 = 0x2E && name.getD 10 0 = 0x5F &&
    name.getD 13 0 = 0x2E && digits.all (fun place ↦ 0x30 ≤ name.getD place 0 && name.getD place 0 ≤ 0x39) &&
    (name.drop 16).take 4 = kSweepLogSuffix

def sweepLogFilesToRemove (names : List Bytes) (keep : Nat) : List Bytes :=
  let ours := (names.filter isSweepLogName).insertionSort (· ≤ ·)
  if ours.length ≤ keep then [] else ours.take (ours.length - keep)

variable {text other rest more : Bytes} {total number next width : Nat}

theorem readDigits_bounds (hread : text.foldlM (readDigit 10) total = some number) :
    total * 10 ^ text.length ≤ number ∧ number < (total + 1) * 10 ^ text.length := by
  induction text generalizing total with
  | nil => cases hread; simp
  | cons byte text ih =>
    have hdigit := isSome_digitValue_ten.mp (foldlM_readDigit_digits hread byte mem_cons_self)
    have hhigh : byte.toNat ≤ 0x39 := UInt8.le_iff_toNat_le.mp hdigit.2
    rw [foldlM_cons, readDigit_ten hdigit] at hread
    obtain ⟨hlow, hbelow⟩ := ih hread
    rw [length_cons, Nat.pow_succ']
    constructor
    · refine le_trans ?_ hlow
      rw [← Nat.mul_assoc]
      exact Nat.mul_le_mul_right _ (by omega)
    · refine lt_of_lt_of_le hbelow ?_
      rw [← Nat.mul_assoc]
      exact Nat.mul_le_mul_right _ (by omega)

theorem lt_of_digit_lt {byte later : UInt8} (hsame : text.length = other.length) (hbytes : byte < later)
    (hread : (byte :: text).foldlM (readDigit 10) total = some number)
    (hother : (later :: other).foldlM (readDigit 10) total = some next) : number < next := by
  have hfirst := isSome_digitValue_ten.mp (foldlM_readDigit_digits hread byte mem_cons_self)
  have hsecond := isSome_digitValue_ten.mp (foldlM_readDigit_digits hother later mem_cons_self)
  have hlow : 0x30 ≤ byte.toNat := UInt8.le_iff_toNat_le.mp hfirst.1
  have hless : byte.toNat < later.toNat := UInt8.lt_iff_toNat_lt.mp hbytes
  rw [foldlM_cons, readDigit_ten hfirst] at hread
  rw [foldlM_cons, readDigit_ten hsecond] at hother
  refine lt_of_lt_of_le (readDigits_bounds hread).2 (le_trans ?_ (readDigits_bounds hother).1)
  rw [hsame]
  exact Nat.mul_le_mul_right _ (by omega)

/-- Texts of as many digits are in the order of their numbers, whatever follows them. -/
theorem digits_append_lt_iff (hlength : text.length = other.length)
    (hread : text.foldlM (readDigit 10) total = some number)
    (hother : other.foldlM (readDigit 10) total = some next) :
    text ++ rest < other ++ more ↔ number < next ∨ number = next ∧ rest < more := by
  induction text generalizing other total with
  | nil =>
    obtain rfl := length_eq_zero_iff.mp hlength.symm
    cases hread.symm.trans hother
    simp
  | cons byte text ih =>
    cases other with
    | nil => cases hlength
    | cons later other =>
      have hsame := Nat.succ.inj hlength
      rw [cons_append, cons_append, cons_lt_cons_iff]
      rcases lt_trichotomy byte.toNat later.toNat with hless | heq | hgreater
      · have hbytes := UInt8.lt_iff_toNat_lt.mpr hless
        exact iff_of_true (.inl hbytes) (.inl (lt_of_digit_lt hsame hbytes hread hother))
      · obtain rfl := UInt8.toNat_inj.mp heq
        rw [foldlM_cons] at hread hother
        obtain ⟨middle, hmiddle, hread⟩ := Option.bind_eq_some_iff.mp hread
        rw [hmiddle] at hother
        simpa using ih hsame hread hother
      · have hbytes := UInt8.lt_iff_toNat_lt.mpr hgreater
        have hnumbers := lt_of_digit_lt hsame.symm hbytes hother hread
        refine iff_of_false ?_ (by omega)
        rintro (hless | ⟨rfl, -⟩)
        · exact absurd (UInt8.lt_iff_toNat_lt.mp hless) (by omega)
        · exact absurd hgreater (lt_irrefl _)

theorem field_append_lt_iff (hfirst : IsField width text number) (hsecond : IsField width other next) :
    text ++ rest < other ++ more ↔ number < next ∨ number = next ∧ rest < more := by
  obtain ⟨hlength, hread⟩ := hfirst
  obtain ⟨hother, hnext⟩ := hsecond
  rw [readNumeral] at hread hnext
  split_ifs at hread hnext
  exact digits_append_lt_iff (hlength.trans hother.symm) hread hnext

/-- A local time of the years 0 to 9999. -/
structure LocalTime where
  year : Nat
  month : Nat
  day : Nat
  hour : Nat
  minute : Nat
  year_le : year ≤ 9999
  month_mem : 1 ≤ month ∧ month ≤ 12
  day_mem : 1 ≤ day ∧ day ≤ 31
  hour_lt : hour < 24
  minute_lt : minute < 60

namespace LocalTime

def tm (time : LocalTime) : Tm := ⟨time.year - 1900, time.month - 1, time.day, time.hour, time.minute⟩

/-- Local times are ordered by their fields, the largest unit first. -/
def fields (time : LocalTime) : List Nat := [time.year, time.month, time.day, time.hour, time.minute]

theorem exists_pieces (time : LocalTime) : ∃ year month day hour minute, sweepLogName time.tm =
    year ++ 0x2E :: (month ++ 0x2E :: (day ++ 0x5F :: (hour ++ 0x2E :: (minute ++ kSweepLogSuffix)))) ∧
      IsField 4 year time.year ∧ IsField 2 month time.month ∧ IsField 2 day time.day ∧
      IsField 2 hour time.hour ∧ IsField 2 minute time.minute := by
  obtain ⟨year, month, day, hour, minute, hyear, hmonth, hday, hhour, hminute⟩ := time
  have hfield (value : Nat) (hvalue : value < 100) : IsField 2 (zeroPadded 2 value) value :=
    isField_zeroPadded (by decide) hvalue
  have hyearField : IsField 4 (zeroPadded 4 year) year := isField_zeroPadded (by decide) (by omega)
  refine ⟨_, _, _, _, _, ?_, hyearField, hfield month (by omega), hfield day (by omega),
    hfield hour (by omega), hfield minute (by omega)⟩
  have hyearInt : (year : Int) - 1900 + 1900 = year := by omega
  have hmonthInt : (month : Int) - 1 + 1 = month := by omega
  simp only [sweepLogName, tm, hyearInt, hmonthInt]
  rw [take_of_length_le]
  · simp [ascii]
  · simp [ascii, kSweepLogSuffix, hyearField.1, (hfield month (by omega)).1, (hfield day (by omega)).1,
      (hfield hour (by omega)).1, (hfield minute (by omega)).1]

theorem name_lt_iff (first second : LocalTime) :
    sweepLogName first.tm < sweepLogName second.tm ↔ first.fields < second.fields := by
  obtain ⟨_, _, _, _, _, hfirst, hyear, hmonth, hday, hhour, hminute⟩ := first.exists_pieces
  obtain ⟨_, _, _, _, _, hsecond, hyear', hmonth', hday', hhour', hminute'⟩ := second.exists_pieces
  rw [hfirst, hsecond, field_append_lt_iff hyear hyear', cons_lt_cons_self,
    field_append_lt_iff hmonth hmonth', cons_lt_cons_self, field_append_lt_iff hday hday',
    cons_lt_cons_self, field_append_lt_iff hhour hhour', cons_lt_cons_self,
    field_append_lt_iff hminute hminute']
  simp [fields, cons_lt_cons_iff, List.lt_irrefl kSweepLogSuffix]

end LocalTime

section Removed

variable (names : List Bytes) (keep : Nat)

theorem removed_eq : sweepLogFilesToRemove names keep =
    ((names.filter isSweepLogName).insertionSort (· ≤ ·)).take (names.countP isSweepLogName - keep) := by
  rw [sweepLogFilesToRemove, countP_eq_length_filter, length_insertionSort]
  split_ifs with hfew
  · rw [Nat.sub_eq_zero_of_le hfew, take_zero]
  · rfl

/-- What stays are the last ones of the sorted names. -/
theorem stays_perm : ((names.filter isSweepLogName).diff (sweepLogFilesToRemove names keep)).Perm
    (((names.filter isSweepLogName).insertionSort (· ≤ ·)).drop (names.countP isSweepLogName - keep)) := by
  rw [removed_eq]
  generalize names.countP isSweepLogName - keep = count
  have hsorted := perm_insertionSort (· ≤ ·) (names.filter isSweepLogName)
  generalize (names.filter isSweepLogName).insertionSort (· ≤ ·) = ours at hsorted ⊢
  refine (hsorted.symm.diff_right _).trans ((perm_append_left_iff (ours.take count)).mp ?_)
  rw [take_append_drop]
  exact subperm_append_diff_self_of_count_le fun name _ ↦ (take_sublist count ours).count_le name

instance : Std.Total fun first second : Bytes ↦ first ≤ second := ⟨List.le_total⟩

instance : IsTrans Bytes fun first second ↦ first ≤ second := ⟨fun _ _ _ ↦ List.le_trans⟩

/-- Only sweep logs go, as many as there are too many, and none that is newer than one that stays. A name
that is in the list several times stays as often as it is not returned. -/
theorem removes_oldest :
    (∀ gone ∈ sweepLogFilesToRemove names keep, gone ∈ names ∧ isSweepLogName gone = true) ∧
      ((names.filter isSweepLogName).diff (sweepLogFilesToRemove names keep)).length =
        min keep (names.countP isSweepLogName) ∧
      (names.Nodup → (names.filter isSweepLogName).diff (sweepLogFilesToRemove names keep) =
        (names.filter isSweepLogName).filter (· ∉ sweepLogFilesToRemove names keep)) ∧
      (∀ gone ∈ sweepLogFilesToRemove names keep,
        ∀ stays ∈ (names.filter isSweepLogName).diff (sweepLogFilesToRemove names keep), gone ≤ stays) ∧
      ∀ first second : LocalTime,
        (sweepLogName first.tm < sweepLogName second.tm ↔ first.fields < second.fields) := by
  have hsorted := perm_insertionSort (· ≤ ·) (names.filter isSweepLogName)
  have hpairwise := pairwise_insertionSort (· ≤ ·) (names.filter isSweepLogName)
  have hstays := stays_perm names keep
  refine ⟨?_, ?_, fun hnodup ↦ (hnodup.filter _).sdiff_eq_filter, ?_, LocalTime.name_lt_iff⟩
  · intro gone hgone
    rw [removed_eq] at hgone
    exact mem_filter.mp (hsorted.mem_iff.mp (mem_of_mem_take hgone))
  · rw [hstays.length_eq, length_drop, length_insertionSort, countP_eq_length_filter]
    omega
  · intro gone hgone stays hmem
    rw [removed_eq] at hgone
    rw [← take_append_drop (names.countP isSweepLogName - keep)
      ((names.filter isSweepLogName).insertionSort (· ≤ ·)), pairwise_append] at hpairwise
    exact hpairwise.2.2 gone hgone stays (hstays.mem_iff.mp hmem)

end Removed

end DhcpServer.Core.SweepLogFormat
