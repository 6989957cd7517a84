import DhcpServer.Core.JobRegistry
import DhcpServer.Dns.CacheFile
import DhcpServer.Dns.RestartSaves

/-!
# The verdict of a cache save

`persistJobTask` with `persistSave_` set. An attempt writes the file and, for a restart, reads it back;
`RestartSaveVerify::run` allows one more attempt. What an attempt meets on the volume is an input. The
attempts share `written` and `nothingToSave`, and each has a reason of its own, which `run` hands to its
report and to nobody else.
-/

namespace DhcpServer.Dns.SaveVerdict

open Library
open CacheFile (CacheFileStatus)
open RestartSaves (PersistResult)
open Core.JobRegistry (JobState)

structure CacheFileRead where
  status : CacheFileStatus
  records : Nat
  why : Bytes

structure CacheFileCheck where
  ok : Bool := false
  records : Nat
  why : Bytes := []

def statusName : CacheFileStatus → Bytes
  | .ok => ascii "ok"
  | .notFound => ascii "not found"
  | .badHeader => ascii "bad header"
  | .unsupportedVersion => ascii "unsupported version"
  | .implausibleCount => ascii "implausible record count"
  | .truncated => ascii "truncated"
  | .badRecord => ascii "bad record"
  | .trailingBytes => ascii "trailing bytes"

def toText (value : Nat) : Bytes := (Nat.toDigits 10 value).map fun digit ↦ UInt8.ofNat digit.toNat

/-- `CacheFileReader::check`, behind the reading. -/
def check (read : CacheFileRead) (expectedRecords : Nat) : CacheFileCheck :=
  if read.status ≠ .ok then
    { records := read.records, why := if read.why.isEmpty then statusName read.status else read.why }
  else if read.records ≠ expectedRecords then
    { records := read.records
      why := ascii "the file holds " ++ toText read.records ++ ascii " records, " ++
        toText expectedRecords ++ ascii " were written" }
  else { ok := true, records := read.records }

/-- What a run of `saveToFile` meets. -/
structure SaveConditions where
  arena : Bool
  /-- the nodes that are to be written -/
  keep : Nat
  snapshot : Bool
  opened : Bool
  headed : Bool
  streamed : Bool
  closed : Bool
  published : Bool
  written : Nat

structure SaveReturn where
  saved : Bool
  entriesWritten : Nat := 0
  nothingToSave : Bool := false

def saveToFile (met : SaveConditions) : SaveReturn :=
  if !met.arena then { saved := false }
  else if met.keep = 0 then { saved := false, nothingToSave := true }
  else if !met.snapshot then { saved := false }
  else if !met.opened then { saved := false }
  else if !met.headed then { saved := false }
  else if !met.streamed || !met.closed then { saved := false }
  else if !met.published then { saved := false }
  else { saved := true, entriesWritten := met.written }

inductive AttemptResult
  | ok
  | mismatch
  | failed
deriving DecidableEq

inductive Outcome
  | ok
  | mismatch
  | failed
deriving DecidableEq

def outcomeOf : AttemptResult → Outcome
  | .ok => .ok
  | .mismatch => .mismatch
  | .failed => .failed

structure Report where
  attempt : Nat
  result : AttemptResult
  why : Bytes

def kAttempts : Nat := 2

section Run

variable {σ : Type} (attempt : Nat → σ × AttemptResult × Bytes)

/-- The attempts from the `n`th on, behind an outcome. -/
def runFrom : Nat → Nat → σ × Outcome → σ × Outcome × List Report
  | 0, _, (locals, last) => (locals, last, [])
  | remaining + 1, n, _ =>
    let (locals, result, why) := attempt n
    if result = .ok then (locals, .ok, [⟨n, result, why⟩])
    else
      let (locals, last, reports) := runFrom remaining (n + 1) (locals, outcomeOf result)
      (locals, last, ⟨n, result, why⟩ :: reports)

def run (locals : σ) : σ × Outcome × List Report := runFrom attempt kAttempts 1 (locals, .failed)

end Run

/-- What one attempt meets: on the volume, and when the file is read back. -/
structure Try where
  save : SaveConditions
  read : CacheFileRead

structure Locals where
  written : Nat := 0
  nothingToSave : Bool := false

def couldNotBeWritten : Bytes := ascii "the cache file could not be written"

def attempt (verify : Bool) (met : Try) : Locals × AttemptResult × Bytes :=
  let save := saveToFile met.save
  let locals : Locals := ⟨save.entriesWritten, save.nothingToSave⟩
  if !save.saved then
    if save.nothingToSave then (locals, .ok, []) else (locals, .failed, couldNotBeWritten)
  else if !verify then (locals, .ok, [])
  else
    let check := check met.read save.entriesWritten
    if !check.ok then (locals, .mismatch, check.why) else (locals, .ok, [])

structure Verdict where
  persistResult : PersistResult
  persistDetail : Bytes
  persistChecked : Bool
  jobState : JobState

/-- The locals, the outcome, and what is in the task's own `why`, which only an ordinary save hands
to its attempt. -/
def saveRuns (verify : Bool) (met : Nat → Try) : Locals × Outcome × Bytes :=
  if verify then
    let (locals, outcome, _) := run (fun n ↦ attempt verify (met n)) {}
    (locals, outcome, [])
  else
    let (locals, result, why) := attempt verify (met 1)
    (locals, if result = .ok then .ok else .failed, why)

def persistJob (verify : Bool) (met : Nat → Try) : Verdict :=
  let (locals, outcome, why) := saveRuns verify met
  let (ok, verified, result, detail) : Bool × Bool × PersistResult × Bytes :=
    if locals.nothingToSave then (false, false, .empty, [])
    else if outcome = .ok then (true, verify, .ok, [])
    else (false, false, if outcome = .mismatch then .mismatch else .failed, why)
  ⟨result, detail, verified, if ok then .done else .failed⟩

def SaveConditions.Publishes (met : SaveConditions) : Prop :=
  met.arena = true ∧ 0 < met.keep ∧ met.snapshot = true ∧ met.opened = true ∧ met.headed = true ∧
    met.streamed = true ∧ met.closed = true ∧ met.published = true

def SaveConditions.HasNothing (met : SaveConditions) : Prop := met.arena = true ∧ met.keep = 0

theorem saveToFile_cases (met : SaveConditions) : (met.HasNothing ∧ saveToFile met = ⟨false, 0, true⟩) ∨
    (met.Publishes ∧ saveToFile met = ⟨true, met.written, false⟩) ∨
    (¬ met.HasNothing ∧ ¬ met.Publishes ∧ saveToFile met = ⟨false, 0, false⟩) := by
  unfold saveToFile SaveConditions.HasNothing SaveConditions.Publishes
  split_ifs <;> simp_all [Nat.pos_iff_ne_zero]
  grind

theorem not_hasNothing_of_publishes {met : SaveConditions} (hpublishes : met.Publishes) :
    ¬ met.HasNothing := fun hnothing ↦ absurd hnothing.2 hpublishes.2.1.ne'

theorem statusName_ne_nil (status : CacheFileStatus) : statusName status ≠ [] := by
  cases status <;> decide

theorem check_why {read : CacheFileRead} {expectedRecords : Nat}
    (hrefused : (check read expectedRecords).ok = false) : (check read expectedRecords).why ≠ [] := by
  rw [check] at hrefused ⊢
  split_ifs at hrefused ⊢ with hstatus hempty hrecords
  · exact statusName_ne_nil read.status
  · simpa using hempty
  · simp [ascii]

/-- The file is there, and if it is read back it is what was written. -/
def Try.Fine (met : Try) : Prop := met.save.Publishes ∧ (check met.read met.save.written).ok = true

theorem attempt_cases (verify : Bool) (met : Try) :
    (met.save.HasNothing ∧ attempt verify met = (⟨0, true⟩, .ok, [])) ∨
    (met.save.Publishes ∧ (verify = true → met.Fine) ∧
      attempt verify met = (⟨met.save.written, false⟩, .ok, [])) ∨
    (¬ met.save.HasNothing ∧ ¬ met.Fine ∧ verify ∧ ∃ why, why ≠ [] ∧
      attempt verify met = (⟨met.save.written, false⟩, .mismatch, why)) ∨
    (¬ met.save.HasNothing ∧ ¬ met.save.Publishes ∧
      attempt verify met = (⟨0, false⟩, .failed, couldNotBeWritten)) := by
  rcases saveToFile_cases met.save with ⟨hnothing, hsave⟩ | ⟨hpublishes, hsave⟩ |
    ⟨hfilled, hunpublished, hsave⟩
  · exact .inl ⟨hnothing, by simp [attempt, hsave]⟩
  · cases verify with
    | false => exact .inr (.inl ⟨hpublishes, nofun, by simp [attempt, hsave]⟩)
    | true =>
      cases hcheck : (check met.read met.save.written).ok with
      | true => exact .inr (.inl ⟨hpublishes, fun _ ↦ ⟨hpublishes, hcheck⟩, by simp [attempt, hsave, hcheck]⟩)
      | false =>
        refine .inr (.inr (.inl ⟨not_hasNothing_of_publishes hpublishes, ?_, rfl, _, check_why hcheck,
          by simp [attempt, hsave, hcheck]⟩))
        intro hfine
        rw [hfine.2] at hcheck
        cases hcheck
  · exact .inr (.inr (.inr ⟨hfilled, hunpublished, by simp [attempt, hsave]⟩))

def lastAttempt (verify : Bool) (met : Nat → Try) : Nat :=
  if verify = true ∧ (attempt verify (met 1)).2.1 ≠ .ok then 2 else 1

section Run

variable {σ : Type} (attempt : Nat → σ × AttemptResult × Bytes) {locals : σ}

theorem run_of_ok (hfirst : (attempt 1).2.1 = .ok) :
    run attempt locals = ((attempt 1).1, .ok, [⟨1, .ok, (attempt 1).2.2⟩]) := by
  simp [run, kAttempts, runFrom, hfirst]

theorem run_of_ne_ok (hfirst : (attempt 1).2.1 ≠ .ok) :
    run attempt locals = ((attempt 2).1, outcomeOf (attempt 2).2.1,
      [⟨1, (attempt 1).2.1, (attempt 1).2.2⟩, ⟨2, (attempt 2).2.1, (attempt 2).2.2⟩]) := by
  by_cases hsecond : (attempt 2).2.1 = .ok
  · simp [run, kAttempts, runFrom, hfirst, hsecond, outcomeOf]
  · simp [run, kAttempts, runFrom, hfirst, hsecond]

end Run

theorem saveRuns_verified (met : Nat → Try) : saveRuns true met =
      ((attempt true (met (lastAttempt true met))).1,
        outcomeOf (attempt true (met (lastAttempt true met))).2.1, []) := by
  rw [saveRuns, if_pos rfl, lastAttempt]
  by_cases hfirst : (attempt true (met 1)).2.1 = .ok
  · rw [run_of_ok (fun n ↦ attempt true (met n)) hfirst, if_neg (by simp [hfirst]), hfirst]
    rfl
  · rw [run_of_ne_ok (fun n ↦ attempt true (met n)) hfirst, if_pos ⟨rfl, hfirst⟩]

theorem lastAttempt_ordinary (met : Nat → Try) : lastAttempt false met = 1 := if_neg (by simp)

/-- The state that is reported describes the last attempt, with its reason where it went wrong. -/
structure Truthful (verify : Bool) (met : Nat → Try) : Prop where
  ok : (persistJob verify met).persistResult = .ok →
    (met (lastAttempt verify met)).save.Publishes ∧ (verify = true → (met (lastAttempt verify met)).Fine)
  checked : (persistJob verify met).persistChecked = true ↔
    (persistJob verify met).persistResult = .ok ∧ verify = true
  reason : (persistJob verify met).persistResult = .mismatch ∨
      (persistJob verify met).persistResult = .failed →
    (persistJob verify met).persistDetail ≠ [] ∧
      (persistJob verify met).persistDetail = (attempt verify (met (lastAttempt verify met))).2.2
  closed : (persistJob verify met).jobState = .failed →
    (persistJob verify met).persistResult = .mismatch ∨ (persistJob verify met).persistResult = .failed

/-- A save finds something to write, and a save for a restart succeeds at last. -/
def Succeeds (verify : Bool) (met : Nat → Try) : Prop :=
  if verify then (met 1).Fine ∨ (¬ (met 1).save.HasNothing ∧ (met 2).Fine)
  else ¬ (met 1).save.HasNothing

theorem Try.Fine.not_hasNothing {met : Try} (hfine : met.Fine) : ¬ met.save.HasNothing :=
  not_hasNothing_of_publishes hfine.1

theorem attempt_ok_iff (met : Try) : (attempt true met).2.1 = .ok ↔ met.save.HasNothing ∨ met.Fine := by
  rcases attempt_cases true met with ⟨hnothing, hattempt⟩ | ⟨-, hfine, hattempt⟩ |
    ⟨hfilled, hunfit, -, _, -, hattempt⟩ | ⟨hfilled, hunpublished, hattempt⟩
  · rw [hattempt]
    exact iff_of_true rfl (.inl hnothing)
  · rw [hattempt]
    exact iff_of_true rfl (.inr (hfine rfl))
  · rw [hattempt]
    exact iff_of_false nofun (not_or.mpr ⟨hfilled, hunfit⟩)
  · rw [hattempt]
    exact iff_of_false nofun (not_or.mpr ⟨hfilled, fun hfine ↦ hunpublished hfine.1⟩)

theorem succeeds_verified_iff (met : Nat → Try) :
    Succeeds true met ↔ (met (lastAttempt true met)).Fine := by
  rw [Succeeds, if_pos rfl, lastAttempt]
  by_cases hfirst : (attempt true (met 1)).2.1 = .ok
  · rw [if_neg (by simp [hfirst])]
    constructor
    · rintro (hfine | ⟨hfilled, -⟩)
      · exact hfine
      · exact ((attempt_ok_iff _).mp hfirst).resolve_left hfilled
    · exact .inl
  · have hneither := not_or.mp ((attempt_ok_iff _).not.mp hfirst)
    rw [if_pos ⟨rfl, hfirst⟩]
    constructor
    · rintro (hfine | ⟨-, hfine⟩)
      · exact absurd hfine hneither.2
      · exact hfine
    · exact fun hfine ↦ .inr ⟨hneither.1, hfine⟩

theorem truthful_verified_iff (met : Nat → Try) :
    Truthful true met ↔ (met (lastAttempt true met)).Fine := by
  have hruns := saveRuns_verified met
  rcases attempt_cases true (met (lastAttempt true met)) with ⟨hnothing, hattempt⟩ |
    ⟨hpublishes, hfine, hattempt⟩ | ⟨-, hunfit, -, why, hwhy, hattempt⟩ |
    ⟨-, hunpublished, hattempt⟩
  · have hjob : persistJob true met = ⟨.empty, [], false, .failed⟩ := by
      simp [persistJob, hruns, hattempt]
    refine iff_of_false (fun htruthful ↦ ?_) fun hfine ↦ hfine.not_hasNothing hnothing
    have hclosed := htruthful.closed (by rw [hjob])
    rw [hjob] at hclosed
    simp at hclosed
  · have hjob : persistJob true met = ⟨.ok, [], true, .done⟩ := by
      simp [persistJob, hruns, hattempt, outcomeOf]
    refine iff_of_true ⟨fun _ ↦ ⟨hpublishes, hfine⟩, ?_, ?_, ?_⟩ (hfine rfl)
    all_goals simp [hjob]
  · have hjob : persistJob true met = ⟨.mismatch, [], false, .failed⟩ := by
      simp [persistJob, hruns, hattempt, outcomeOf]
    refine iff_of_false (fun htruthful ↦ ?_) hunfit
    have hreason := (htruthful.reason (by simp [hjob])).1
    simp [hjob] at hreason
  · have hjob : persistJob true met = ⟨.failed, [], false, .failed⟩ := by
      simp [persistJob, hruns, hattempt, outcomeOf]
    refine iff_of_false (fun htruthful ↦ ?_) fun hfine ↦ hunpublished hfine.1
    have hreason := (htruthful.reason (by simp [hjob])).1
    simp [hjob] at hreason

theorem truthful_ordinary_iff (met : Nat → Try) : Truthful false met ↔ ¬ (met 1).save.HasNothing := by
  have hlast := lastAttempt_ordinary met
  rcases attempt_cases false (met 1) with ⟨hnothing, hattempt⟩ | ⟨hpublishes, -, hattempt⟩ |
    ⟨-, -, hverify, -⟩ | ⟨hfilled, -, hattempt⟩
  · have hjob : persistJob false met = ⟨.empty, [], false, .failed⟩ := by
      simp [persistJob, saveRuns, hattempt]
    refine iff_of_false (fun htruthful ↦ ?_) (not_not.mpr hnothing)
    have hclosed := htruthful.closed (by rw [hjob])
    rw [hjob] at hclosed
    simp at hclosed
  · have hjob : persistJob false met = ⟨.ok, [], false, .done⟩ := by
      simp [persistJob, saveRuns, hattempt]
    refine iff_of_true ⟨fun _ ↦ ⟨hlast ▸ hpublishes, nofun⟩, ?_, ?_, ?_⟩
      (not_hasNothing_of_publishes hpublishes)
    all_goals simp [hjob]
  · cases hverify
  · have hjob : persistJob false met = ⟨.failed, couldNotBeWritten, false, .failed⟩ := by
      simp [persistJob, saveRuns, hattempt]
    refine iff_of_true ⟨?_, ?_, fun _ ↦ ⟨?_, ?_⟩, ?_⟩ hfilled
    · simp [hjob]
    · simp [hjob]
    · rw [hjob]
      decide
    · rw [hjob, hlast, hattempt]
    · simp [hjob]

/-- The verdict of a save is truthful exactly if there was something to save and, for a restart, the
last attempt succeeded. -/
theorem verdict_truthful_iff (verify : Bool) (met : Nat → Try) :
    Truthful verify met ↔ Succeeds verify met := by
  cases verify with
  | false =>
    rw [truthful_ordinary_iff, Succeeds]
    simp
  | true => rw [truthful_verified_iff, succeeds_verified_iff]

/-- A card that takes nothing: no attempt opens its part. -/
def fullCard : Nat → Try := fun _ ↦
  ⟨⟨true, 3, true, false, false, false, false, false, 0⟩, ⟨.notFound, 0, []⟩⟩

def emptyTable : Nat → Try := fun _ ↦
  ⟨⟨true, 0, true, true, true, true, true, true, 0⟩, ⟨.notFound, 0, []⟩⟩

/-- A failed save for a restart is reported without a reason, and an ordinary save of an empty table is
closed as failed. -/
theorem verdict_not_truthful :
    ((persistJob true fullCard).persistResult = .failed ∧ (persistJob true fullCard).persistDetail = []) ∧
    ((persistJob false emptyTable).persistResult = .empty ∧
      (persistJob false emptyTable).jobState = .failed) ∧
    ¬ Truthful true fullCard ∧ ¬ Truthful false emptyTable := by
  refine ⟨by decide, by decide, ?_, ?_⟩
  · rw [truthful_verified_iff]
    exact fun hfine ↦ absurd hfine.1.2.2.2.1 (by decide)
  · rw [truthful_ordinary_iff]
    exact not_not.mpr ⟨rfl, rfl⟩

end DhcpServer.Dns.SaveVerdict
