import DhcpServer.Files.FileManager
import DhcpServer.Files.Uploads
import DhcpServer.Library.Numerals

/-!
# The numbers of an upload

How `queryParamU64` reads a number of the query and what `openWrite` does with the numbers, in machine
words. Both are compared with the numbers themselves: a text of digits stands for a number of any size,
and sums do not wrap.
-/

namespace DhcpServer.Files.UploadNumbers

open Library Option

/-- decimal digits of a `uint64_t` -/
def kMaxUint64Digits : Nat := 20

def kFreeSpaceReserve : UInt64 := 4096

/-- One round of the loop of `queryParamU64`. -/
def addDigit (value : UInt64) (c : UInt8) : Option UInt64 :=
  if c < 0x30 ∨ 0x39 < c then none else some (value * 10 + UInt64.ofNat (c.toNat - 0x30))

/-- `raw` is the parameter, where the query has it. -/
def queryParamU64 (raw : Option Bytes) : Option UInt64 :=
  match raw with
  | none => none
  | some raw => if raw = [] ∨ kMaxUint64Digits < raw.length then none else raw.foldlM addDigit 0

structure VolumeInfo where
  mounted : Bool
  freeBytes : UInt64

/-- What the calls of one `openWrite` find. -/
structure Site where
  /-- the answer of `resolve`, where it is not `ok` -/
  refused : Option FileStatus
  /-- the target is a directory -/
  isDir : Bool
  /-- the size of the part, where there is one -/
  part : Option UInt64
  /-- read after all checks of the path, when the volume may be gone again -/
  info : VolumeInfo
  /-- the error of the sink, where it does not open -/
  unopened : Option Bytes

def Site.partSize (site : Site) : UInt64 := site.part.getD 0

def openWrite (site : Site) (path : Bytes) (offset totalLen chunkLen : UInt64) :
    Except Failure UploadRange :=
  match site.refused with
  | some status => .error ⟨status, none⟩
  | none =>
    match FileManager.absolute path with
    | none => .error ⟨.invalidPath, none⟩
    | some names =>
      if names = [] then .error ⟨.invalidPath, none⟩
      else if site.isDir then .error ⟨.alreadyExists, none⟩
      else
        match UploadRange.check site.partSize.toNat offset.toNat chunkLen.toNat (totalLen ≠ 0)
          totalLen.toNat with
        | .error reason => .error ⟨.conflict, some reason⟩
        | .ok range =>
          if site.info.mounted ∧
              site.info.freeBytes < UInt64.ofNat range.neededBytes + kFreeSpaceReserve then
            .error ⟨.noSpace, some (ascii "volume is full")⟩
          else
            match site.unopened with
            | some text => .error ⟨.ioError, some text⟩
            | none => .ok range

/-- A text is accepted where it is a decimal number below `2 ^ 64`, and stands for that number. -/
def ReadsExactly (text : Bytes) : Prop :=
  ∀ value, queryParamU64 (some text) = some value ↔ readNumeral 10 text = some value.toNat

/-- Too many digits for a word in twenty, or a number that fits into a word in more than twenty. -/
def Misread (text : Bytes) : Prop :=
  ∃ number, readNumeral 10 text = some number ∧ (text.length ≤ kMaxUint64Digits ↔ 2 ^ 64 ≤ number)

/-- What an accepted piece of a resumable upload keeps to, in numbers. -/
structure Fits (site : Site) (offset total chunk : UInt64) : Prop where
  continues : offset.toNat = site.partSize.toNat
  ends : offset.toNat + chunk.toNat ≤ total.toNat
  space : total.toNat - offset.toNat + kFreeSpaceReserve.toNat ≤ site.info.freeBytes.toNat

def AcceptsExactly (site : Site) (path : Bytes) (offset total chunk : UInt64) : Prop :=
  total ≠ 0 → (∃ range, openWrite site path offset total chunk = .ok range) → Fits site offset total chunk

/-- Nothing the code looks at speaks against the piece; its sums are words. -/
structure Passes (site : Site) (path : Bytes) (offset total chunk : UInt64) : Prop where
  resolved : site.refused = none
  named : ∃ names, FileManager.absolute path = some names ∧ names ≠ []
  file : site.isDir = false
  resumable : total ≠ 0
  nonempty : chunk ≠ 0
  continues : offset = site.partSize
  before : offset < total
  ends : offset + chunk ≤ total
  space : site.info.mounted = true → total - offset + kFreeSpaceReserve ≤ site.info.freeBytes
  opens : site.unopened = none

/-- A sum wraps, or the free space is not looked at because the volume has gone in between. -/
def Slips (site : Site) (path : Bytes) (offset total chunk : UInt64) : Prop :=
  Passes site path offset total chunk ∧ (2 ^ 64 ≤ offset.toNat + chunk.toNat ∨
      2 ^ 64 ≤ total.toNat - offset.toNat + kFreeSpaceReserve.toNat ∨
      (site.info.mounted = false ∧
        site.info.freeBytes.toNat < total.toNat - offset.toNat + kFreeSpaceReserve.toNat))

variable {site : Site} {path text : Bytes} {offset total chunk : UInt64}

theorem digitValue_ten (c : UInt8) :
    digitValue 10 c = if c < 0x30 ∨ 0x39 < c then none else some (c.toNat - 0x30) := by
  simp only [digitValue, UInt8.le_iff_toNat_le, UInt8.lt_iff_toNat_lt, UInt8.reduceToNat]
  split_ifs <;> first | rfl | omega

theorem addDigit_eq (number : Nat) (c : UInt8) :
    addDigit (UInt64.ofNat number) c = (readDigit 10 number c).map UInt64.ofNat := by
  rw [addDigit, readDigit, digitValue_ten]
  split_ifs
  · rfl
  · simp

theorem foldlM_addDigit (number : Nat) :
    text.foldlM addDigit (UInt64.ofNat number) = (text.foldlM (readDigit 10) number).map UInt64.ofNat := by
  induction text generalizing number with
  | nil => rfl
  | cons c text ih =>
    rw [List.foldlM_cons, List.foldlM_cons, addDigit_eq]
    cases readDigit 10 number c with
    | none => rfl
    | some next => exact ih next

theorem queryParamU64_eq : queryParamU64 (some text) =
      if kMaxUint64Digits < text.length then none else (readNumeral 10 text).map UInt64.ofNat := by
  have hfold : text.foldlM addDigit 0 = (text.foldlM (readDigit 10) 0).map UInt64.ofNat := foldlM_addDigit 0
  unfold queryParamU64 readNumeral
  by_cases hnil : text = []
  · simp [hnil]
  · simp [hnil, hfold]

theorem readsExactly_iff : ReadsExactly text ↔ ¬Misread text := by
  unfold ReadsExactly Misread
  rw [queryParamU64_eq]
  cases hread : readNumeral 10 text with
  | none => simp
  | some number =>
    by_cases hlong : kMaxUint64Digits < text.length
    · have hmisread : (∃ same, some number = some same ∧
          (text.length ≤ kMaxUint64Digits ↔ 2 ^ 64 ≤ same)) ↔ number < 2 ^ 64 := by
        simp [Nat.not_le.mpr hlong]
      rw [if_pos hlong, hmisread]
      constructor
      · intro hexact hsmall
        have hvalue := (hexact (UInt64.ofNat number)).mpr (by rw [UInt64.toNat_ofNat_of_lt' hsmall])
        cases hvalue
      · intro hlarge value
        refine iff_of_false nofun fun hvalue ↦ hlarge ?_
        rw [Option.some.inj hvalue]
        exact value.toNat_lt
    · have hmisread : (∃ same, some number = some same ∧
          (text.length ≤ kMaxUint64Digits ↔ 2 ^ 64 ≤ same)) ↔ 2 ^ 64 ≤ number := by
        simp [Nat.not_lt.mp hlong]
      rw [if_neg hlong, hmisread]
      constructor
      · intro hexact hlarge
        have hvalue := Option.some.inj ((hexact (UInt64.ofNat number)).mp rfl)
        have hword := (UInt64.ofNat number).toNat_lt
        omega
      · intro hsmall value
        rw [map_some, some_inj, some_inj]
        have hword := UInt64.toNat_ofNat_of_lt' (Nat.not_le.mp hsmall)
        constructor
        · rintro rfl
          exact hword.symm
        · intro hvalue
          rw [hvalue, UInt64.ofNat_toNat]

theorem check_isOk_iff (htotal : total ≠ 0) :
    (∃ range, UploadRange.check site.partSize.toNat offset.toNat chunk.toNat (total ≠ 0) total.toNat =
      .ok range) ↔ chunk ≠ 0 ∧ offset = site.partSize ∧ offset < total ∧ offset + chunk ≤ total := by
  have hnumber : total.toNat ≠ 0 := fun hzero ↦ htotal (UInt64.toNat_inj.mp hzero)
  have hchunk : chunk ≠ 0 ↔ chunk.toNat ≠ 0 := UInt64.toNat_inj.not.symm
  have hends : offset + chunk ≤ total ↔
      ¬total.toNat < (offset.toNat + chunk.toNat) % 0x10000000000000000 := by
    rw [UInt64.le_iff_toNat_le, UInt64.toNat_add, not_lt]
  rw [hchunk, hends, UInt64.lt_iff_toNat_lt, ← UInt64.toNat_inj (a := offset)]
  unfold UploadRange.check UploadRange.endOffset
  simp only [htotal, ne_eq, not_false_eq_true, decide_true, Bool.not_true, Bool.false_eq_true, if_false,
    hnumber]
  split_ifs <;> simp_all

theorem check_neededBytes {range : UploadRange} (htotal : total ≠ 0)
    (hok : UploadRange.check site.partSize.toNat offset.toNat chunk.toNat (total ≠ 0) total.toNat =
      .ok range) :
    range.neededBytes = total.toNat - offset.toNat := by
  obtain ⟨-, -, ⟨hnone, -⟩ | ⟨-, hoffset, -, htotals, -⟩⟩ := UploadRange.check_eq_ok hok
  · simp [htotal] at hnone
  · rw [UploadRange.neededBytes, hoffset, htotals]

theorem ofNat_sub (hbefore : offset < total) :
    UInt64.ofNat (total.toNat - offset.toNat) = total - offset := by
  have hle := UInt64.le_of_lt hbefore
  rw [← UInt64.toNat_sub_of_le _ _ hle, UInt64.ofNat_toNat]

theorem openWrite_isOk_iff (htotal : total ≠ 0) :
    (∃ range, openWrite site path offset total chunk = .ok range) ↔ Passes site path offset total chunk := by
  constructor
  · rintro ⟨range, hok⟩
    unfold openWrite at hok
    split at hok
    case h_1 => cases hok
    case h_2 hresolved =>
      split at hok
      case h_1 => cases hok
      case h_2 names hnames =>
        split_ifs at hok with hroot hdir
        split at hok
        case h_1 => cases hok
        case h_2 same hcheck =>
          obtain ⟨hchunk, hcontinues, hbefore, hends⟩ := (check_isOk_iff htotal).mp ⟨same, hcheck⟩
          rw [check_neededBytes htotal hcheck, ofNat_sub hbefore] at hok
          split_ifs at hok with hspace
          split at hok
          case h_1 => cases hok
          case h_2 hopens =>
            exact
              { resolved := hresolved
                named := ⟨names, hnames, hroot⟩
                file := Bool.not_eq_true _ ▸ hdir
                resumable := htotal
                nonempty := hchunk
                continues := hcontinues
                before := hbefore
                ends := hends
                space := fun hmounted ↦ UInt64.not_lt.mp fun hfull ↦ hspace ⟨hmounted, hfull⟩
                opens := hopens }
  · rintro ⟨hresolved, ⟨names, hnames, hroot⟩, hfile, -, hchunk, hcontinues, hbefore, hends, hspace, hopens⟩
    obtain ⟨range, hcheck⟩ := (check_isOk_iff htotal).mpr ⟨hchunk, hcontinues, hbefore, hends⟩
    have hroom : ¬(site.info.mounted = true ∧
        site.info.freeBytes < UInt64.ofNat range.neededBytes + kFreeSpaceReserve) := by
      rw [check_neededBytes htotal hcheck, ofNat_sub hbefore]
      rintro ⟨hmounted, hfull⟩
      exact UInt64.not_lt.mpr (hspace hmounted) hfull
    refine ⟨range, ?_⟩
    simp only [openWrite, hresolved, hnames, if_neg hroot, hfile, Bool.false_eq_true, if_false, hcheck,
      if_neg hroom, hopens]

theorem acceptsExactly_iff :
    AcceptsExactly site path offset total chunk ↔ ¬Slips site path offset total chunk := by
  have hlong := offset.toNat_lt
  have hwords := total.toNat_lt
  have hreserve : kFreeSpaceReserve.toNat = 4096 := rfl
  constructor
  · rintro hexact ⟨hpasses, hslips⟩
    have hfits := hexact hpasses.resumable ((openWrite_isOk_iff hpasses.resumable).mpr hpasses)
    have hends := hfits.ends
    have hspace := hfits.space
    have hfree := site.info.freeBytes.toNat_lt
    omega
  · intro hfine htotal haccepted
    have hpasses := (openWrite_isOk_iff htotal).mp haccepted
    obtain ⟨hsum, hrest⟩ := not_or.mp fun hslips ↦ hfine ⟨hpasses, hslips⟩
    obtain ⟨hneed, hgone⟩ := not_or.mp hrest
    have hends := hpasses.ends
    have hle := UInt64.le_of_lt hpasses.before
    rw [UInt64.le_iff_toNat_le, UInt64.toNat_add, Nat.mod_eq_of_lt (not_le.mp hsum)] at hends
    refine ⟨congrArg UInt64.toNat hpasses.continues, hends, ?_⟩
    cases hmounted : site.info.mounted with
    | false => exact not_lt.mp fun hfull ↦ hgone ⟨hmounted, hfull⟩
    | true =>
      have hspace := hpasses.space hmounted
      rwa [UInt64.le_iff_toNat_le, UInt64.toNat_add, UInt64.toNat_sub_of_le _ _ hle,
        Nat.mod_eq_of_lt (not_le.mp hneed)] at hspace

/-- The numbers of an upload are what they stand for but where a text or a sum does not fit into a word. -/
theorem upload_numbers_iff (text : Bytes) (site : Site) (path : Bytes) (offset total chunk : UInt64) :
    (ReadsExactly text ↔ ¬Misread text) ∧
      (AcceptsExactly site path offset total chunk ↔ ¬Slips site path offset total chunk) :=
  ⟨readsExactly_iff, acceptsExactly_iff⟩

/-- `2 ^ 64` is read as zero, and with a total of `2 ^ 64 - 1` a volume of nothing but the reserve is
large enough. -/
def narrowSite : Site := ⟨none, false, none, ⟨true, 4095⟩, none⟩

theorem wrapped_numbers : queryParamU64 (some (ascii "18446744073709551616")) = some 0 ∧
      ¬ReadsExactly (ascii "18446744073709551616") ∧
      (openWrite narrowSite (ascii "/a") 0 18446744073709551615 1).isOk = true ∧
      ¬AcceptsExactly narrowSite (ascii "/a") 0 18446744073709551615 1 := by
  have haccepted : (openWrite narrowSite (ascii "/a") 0 18446744073709551615 1).isOk = true := by decide
  refine ⟨by decide, ?_, haccepted, fun hexact ↦ ?_⟩
  · exact fun hexact ↦ absurd ((hexact 0).mp (by decide)) (by decide)
  · cases hresult : openWrite narrowSite (ascii "/a") 0 18446744073709551615 1 with
    | error failure =>
      rw [hresult] at haccepted
      cases haccepted
    | ok range => exact absurd (hexact (by decide) ⟨range, hresult⟩).space (by decide)

end DhcpServer.Files.UploadNumbers
