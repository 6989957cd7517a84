import DhcpServer.Core.Md5
import DhcpServer.Dns.PublishedFiles

/-!
# The persist job and the boot

`DnsServer::persistJobTask` on a volume that works, and the restore `DnsServer::start` begins. Three
pieces of state belong together: the part, the file, and the checksum of the file, which is kept
among the settings. The machine may stop anywhere in the job.
-/

namespace DhcpServer.Dns.CacheFile

open Library DhcpServer.Core DhcpServer.Core.AtomicFile List
open InternalCache (Node Arena Inet zeroNode kTypeA)

/-- `/fat/cache.dat`. -/
def kCacheDatPath : Bytes :=
  [0x2F, 0x66, 0x61, 0x74, 0x2F, 0x63, 0x61, 0x63, 0x68, 0x65, 0x2E, 0x64, 0x61, 0x74]

/-- A run of `saveToFile` that found something to save: the nodes it copied, and its clock. -/
structure SaveRun where
  ignoreTtl : Bool
  now : UInt32
  copies : List Node

namespace SaveRun

def content (run : SaveRun) : Bytes := fileBytes run.ignoreTtl run.now run.copies

/-- `entriesWritten`. -/
def written (run : SaveRun) : Nat := (run.copies.filter writesNode).length

def writes (run : SaveRun) : List Call := saveCalls kCacheDatPath run.ignoreTtl run.now run.copies

def calls (run : SaveRun) : List Call := run.writes ++ publishCalls kCacheDatPath

theorem saves (run : SaveRun) : Saves kCacheDatPath run.writes run.content :=
  saves_saveCalls kCacheDatPath run.ignoreTtl run.now run.copies

end SaveRun

/-- `CacheFileReader::check`. -/
def check (file : Option Bytes) (expectedRecords : Nat) : Bool :=
  (read file).status = .ok && (read file).records.length = expectedRecords

def SaveRun.checks (run : SaveRun) : Bool := check (some run.content) run.written

/-- A job with `persistSave_` set. A run is missing when it would find nothing to save; the second
one belongs to the retry that a save with `verify` is allowed. -/
structure PersistJob where
  verify : Bool
  first : Option SaveRun
  second : Option SaveRun

/-- The runs that write, and whether the job ends with `PersistResult::Ok`. -/
def PersistJob.outcome (job : PersistJob) : List SaveRun × Bool :=
  match job.first with
  | none => ([], false)
  | some first =>
    if !job.verify || first.checks then ([first], true)
    else
      match job.second with
      | none => ([first], false)
      | some second => ([first, second], second.checks)

def PersistJob.runs (job : PersistJob) : List SaveRun := job.outcome.1

def PersistJob.succeeds (job : PersistJob) : Bool := job.outcome.2

structure Device where
  storage : Storage
  storedMd5 : Bytes

inductive DeviceStep
  | call (made : Call)
  /-- `Md5::file` of the file on the volume and `storeCacheFileMd5`. -/
  | storeMd5

def DeviceStep.apply (step : DeviceStep) (device : Device) : Device :=
  match step with
  | call made => { device with storage := made.apply device.storage }
  | storeMd5 =>
    match device.storage kCacheDatPath with
    | none => device
    | some content => { device with storedMd5 := Md5.file content }

def DeviceStep.partly (step : DeviceStep) (cut : Nat) (device : Device) : Device :=
  match step with
  | call made => { device with storage := made.partly cut device.storage }
  | storeMd5 => device

def PersistJob.calls (job : PersistJob) : List Call := job.runs.flatMap SaveRun.calls

def PersistJob.steps (job : PersistJob) : List DeviceStep :=
  job.calls.map .call ++ if job.succeeds then [.storeMd5] else []

def PersistJob.apply (job : PersistJob) (device : Device) : Device :=
  runAll DeviceStep.apply job.steps device

/-- The device when the machine stops at `point` of the job. -/
def PersistJob.crashed (job : PersistJob) (point : CrashPoint) (device : Device) : Device :=
  Library.crashed DeviceStep.apply DeviceStep.partly job.steps point device

structure CacheFileMd5 where
  fileExists : Bool := false
  readable : Bool := false
  hasStored : Bool := false
  isMatch : Bool := false
  fileMd5 : Bytes := []
  storedMd5 : Bytes := []

def checkCacheFileMd5 (device : Device) : CacheFileMd5 :=
  let storedMd5 := device.storedMd5
  let hasStored := !storedMd5.isEmpty
  match device.storage kCacheDatPath with
  | none => { storedMd5, hasStored }
  | some content =>
    let fileMd5 := Md5.file content
    if fileMd5.isEmpty then { fileExists := true, storedMd5, hasStored, fileMd5 }
    else
      { fileExists := true, readable := true, storedMd5, hasStored, fileMd5,
        isMatch := hasStored && fileMd5 == storedMd5 }

/-- The file the load job of `start` reads, if it gets as far as reading one. -/
def bootFile (device : Device) : Option Bytes :=
  if readable device.storage kCacheDatPath && (checkCacheFileMd5 device).isMatch then
    recover kCacheDatPath device.storage kCacheDatPath
  else none

/-- The restore into the arena that `applyInternalCache` made. -/
def boot (inet : Inet) (clock : Nat → UInt32) (device : Device) (arena : Arena) : Option (Arena × Nat) :=
  loadFromFile inet clock (bootFile device) arena

def recordsOf (content : Bytes) : List CacheFileRecord := (read (some content)).records

def bootRecords (device : Device) : List CacheFileRecord := (read (bootFile device)).records

theorem isMatch_iff {device : Device} {content : Bytes}
    (hcontent : device.storage kCacheDatPath = some content) :
    (checkCacheFileMd5 device).isMatch ↔ Md5.file content = device.storedMd5 := by
  have hnonempty : (Md5.file content).isEmpty = false := by
    simpa using Md5.file_ne_nil content
  simp only [checkCacheFileMd5, hcontent, hnonempty, Bool.false_eq_true, if_false,
    Bool.and_eq_true, Bool.not_eq_true', beq_iff_eq, and_iff_right_iff_imp]
  intro hsame
  rw [← hsame, hnonempty]

theorem bootRecords_of_match {device : Device} {content : Bytes}
    (hcontent : device.storage kCacheDatPath = some content)
    (hmd5 : Md5.file content = device.storedMd5) : bootRecords device = recordsOf content := by
  have hreadable : (readable device.storage kCacheDatPath &&
      (checkCacheFileMd5 device).isMatch) = true := by
    rw [(isMatch_iff hcontent).mpr hmd5, readable, hcontent]
    rfl
  rw [bootRecords, bootFile, if_pos hreadable, recover_of_readable (by simp [hcontent]), hcontent,
    recordsOf]

theorem bootRecords_of_no_match {device : Device}
    (hmd5 : ∀ content ∈ device.storage kCacheDatPath, Md5.file content ≠ device.storedMd5) :
    bootRecords device = [] := by
  have hrefused : ¬(readable device.storage kCacheDatPath &&
      (checkCacheFileMd5 device).isMatch) = true := by
    rw [Bool.and_eq_true, readable, Option.isSome_iff_exists]
    rintro ⟨⟨content, hcontent⟩, hmatch⟩
    exact hmd5 content hcontent ((isMatch_iff hcontent).mp hmatch)
  rw [bootRecords, bootFile, if_neg hrefused]
  rfl

/-- What stands under the name of the file after `done` calls of the runs. -/
def destinationAt (present : Option Bytes) : List SaveRun → (done : Nat) → Option Bytes
  | [], _ => present
  | run :: runs, done =>
    if done ≤ run.writes.length then present
    else if done = run.writes.length + 1 then none
    else destinationAt (some run.content) runs (done - (run.writes.length + 2))

theorem SaveRun.length_calls (run : SaveRun) : run.calls.length = run.writes.length + 2 := by
  simp [SaveRun.calls, publishCalls]

theorem crashed_destination (runs : List SaveRun) (point : CrashPoint) (storage : Storage) :
    crashedCalls (runs.flatMap SaveRun.calls) point storage kCacheDatPath =
      destinationAt (storage kCacheDatPath) runs point.done := by
  induction runs generalizing point storage with
  | nil => rfl
  | cons run runs ih =>
    have hlength := run.length_calls
    rw [flatMap_cons, crashedCalls, destinationAt]
    by_cases hearly : point.done ≤ run.writes.length
    · rw [crashed_append_left _ (by omega), if_pos hearly]
      exact run.saves.crashed_early hearly storage
    · rw [if_neg hearly]
      by_cases hbetween : point.done = run.writes.length + 1
      · rw [crashed_append_left _ (by omega), if_pos hbetween]
        exact (run.saves.crashed_between hbetween storage).1
      · rw [crashed_append_right _ (by omega), if_neg hbetween, ← crashedCalls, ih, hlength,
          SaveRun.calls, ← run.saves.runCalls_path storage]

theorem destinationAt_mem {present : Option Bytes} {runs : List SaveRun} {done : Nat}
    {content : Bytes} (hcontent : content ∈ destinationAt present runs done) :
    content ∈ present ∨ ∃ run ∈ runs, content = run.content := by
  induction runs generalizing present done with
  | nil => exact .inl hcontent
  | cons run runs ih =>
    rw [destinationAt] at hcontent
    split_ifs at hcontent with hearly hbetween
    · exact .inl hcontent
    · simp at hcontent
    · rcases ih hcontent with hrun | ⟨later, hlater, heq⟩
      · exact .inr ⟨run, mem_cons_self, (Option.some.inj hrun).symm⟩
      · exact .inr ⟨later, mem_cons_of_mem run hlater, heq⟩

theorem runAll_call (calls : List Call) (device : Device) :
    runAll DeviceStep.apply (calls.map .call) device =
      { device with storage := runCalls calls device.storage } := by
  induction calls generalizing device with
  | nil => rfl
  | cons call calls ih => exact ih _

theorem crashed_call (calls : List Call) (point : CrashPoint) (device : Device) :
    Library.crashed DeviceStep.apply DeviceStep.partly (calls.map .call) point device =
      { device with storage := crashedCalls calls point device.storage } := by
  rw [crashedCalls, Library.crashed, Library.crashed, getElem?_map]
  cases calls[point.done]? with
  | none => exact runAll_call calls device
  | some call =>
    simp only [Option.map_some, ← map_take, runAll_call]
    rfl

variable {job : PersistJob}

theorem PersistJob.exists_last (hsucceeds : job.succeeds) :
    ∃ before last, job.runs = before ++ [last] := by
  rw [PersistJob.succeeds, PersistJob.outcome] at hsucceeds
  rw [PersistJob.runs, PersistJob.outcome]
  cases hfirst : job.first with
  | none => simp [hfirst] at hsucceeds
  | some first =>
    simp only [hfirst] at hsucceeds ⊢
    split_ifs at hsucceeds ⊢ with honce
    · exact ⟨[], first, rfl⟩
    · cases hsecond : job.second with
      | none => simp [hsecond] at hsucceeds
      | some second => exact ⟨[first], second, rfl⟩

theorem PersistJob.apply_of_succeeds (hsucceeds : job.succeeds)
    (device : Device) :
    ∃ run ∈ job.runs, (job.apply device).storage kCacheDatPath = some run.content ∧
      (job.apply device).storedMd5 = Md5.file run.content := by
  obtain ⟨before, last, hruns⟩ := job.exists_last hsucceeds
  refine ⟨last, by simp [hruns], ?_⟩
  have hpath : runCalls job.calls device.storage kCacheDatPath = some last.content := by
    rw [PersistJob.calls, hruns, flatMap_append, flatMap_singleton, runCalls, runAll_append]
    exact last.saves.runCalls_path _
  rw [PersistJob.apply, PersistJob.steps, if_pos hsucceeds, runAll_append, runAll_call,
    runAll_cons, runAll_nil, DeviceStep.apply]
  simp only [hpath]
  trivial

/-- The boot restores the old file, or one that the job wrote. -/
def Restores (old : Bytes) (job : PersistJob) (device : Device) : Prop :=
  bootRecords device = recordsOf old ∨ ∃ run ∈ job.runs, bootRecords device = recordsOf run.content

instance (old : Bytes) (job : PersistJob) (device : Device) : Decidable (Restores old job device) :=
  inferInstanceAs (Decidable (_ ∨ _))

def PersistJob.Stored (job : PersistJob) (point : CrashPoint) : Prop :=
  job.succeeds = true ∧ job.calls.length < point.done

/-- The calls of the job leave `destinationAt` under the name and do not touch the checksum. -/
theorem PersistJob.crashed_of_not_stored {point : CrashPoint}
    (hstored : ¬job.Stored point) (device : Device) :
    (job.crashed point device).storage kCacheDatPath =
        destinationAt (device.storage kCacheDatPath) job.runs point.done ∧
      (job.crashed point device).storedMd5 = device.storedMd5 := by
  have hcalls : job.crashed point device =
      { device with storage := crashedCalls job.calls point device.storage } := by
    rw [PersistJob.crashed, PersistJob.steps]
    by_cases hdone : point.done < job.calls.length
    · rw [crashed_append_left _ (by simpa using hdone), crashed_call]
    · have hlength : job.calls.length ≤ point.done := by omega
      rw [crashed_append_right _ (by simpa using hlength), runAll_call, crashedCalls,
        crashed_of_length_le hlength]
      by_cases hsucceeds : job.succeeds
      · have hlast : point.done = job.calls.length :=
          le_antisymm (Nat.le_of_not_lt fun hlt ↦ hstored ⟨hsucceeds, hlt⟩) hlength
        simp [hsucceeds, hlast, Library.crashed, DeviceStep.partly]
      · simp [hsucceeds, Library.crashed]
  rw [hcalls]
  exact ⟨crashed_destination job.runs point device.storage, rfl⟩

theorem PersistJob.crashed_of_stored {point : CrashPoint}
    (hstored : job.Stored point) (device : Device) :
    job.crashed point device = job.apply device := by
  rw [PersistJob.crashed, PersistJob.apply]
  apply crashed_of_length_le
  rw [PersistJob.steps, if_pos hstored.1]
  simpa using Nat.succ_le_of_lt hstored.2

/-- The boot after a crash restores the old file or a new one exactly when the new checksum is
stored, or the name stands for a file with the checksum stored before, or there is nothing in one
of the files. -/
theorem restores_iff {device : Device} {old : Bytes}
    (hold : device.storage kCacheDatPath = some old) (hmd5 : device.storedMd5 = Md5.file old)
    (job : PersistJob) (point : CrashPoint) :
    Restores old job (job.crashed point device) ↔ job.Stored point ∨
      (∃ content ∈ destinationAt (some old) job.runs point.done, Md5.file content = Md5.file old) ∨
      recordsOf old = [] ∨ ∃ run ∈ job.runs, recordsOf run.content = [] := by
  by_cases hstored : job.Stored point
  · obtain ⟨run, hrun, hcontent, hchecksum⟩ := job.apply_of_succeeds hstored.1 device
    have hrestored : Restores old job (job.crashed point device) := by
      refine .inr ⟨run, hrun, ?_⟩
      rw [job.crashed_of_stored hstored]
      exact bootRecords_of_match hcontent hchecksum.symm
    exact iff_of_true hrestored (.inl hstored)
  · obtain ⟨hpath, hkept⟩ := job.crashed_of_not_stored hstored device
    rw [hold] at hpath
    rw [hmd5] at hkept
    by_cases hmatch : ∃ content ∈ destinationAt (some old) job.runs point.done,
        Md5.file content = Md5.file old
    · obtain ⟨content, hcontent, hsame⟩ := hmatch
      have hrecords : bootRecords (job.crashed point device) = recordsOf content :=
        bootRecords_of_match (hpath.trans hcontent) (hsame.trans hkept.symm)
      have hrestored : Restores old job (job.crashed point device) := by
        rcases destinationAt_mem hcontent with hfirst | ⟨run, hrun, rfl⟩
        · cases hfirst
          exact .inl hrecords
        · exact .inr ⟨run, hrun, hrecords⟩
      exact iff_of_true hrestored (.inr (.inl ⟨content, hcontent, hsame⟩))
    · have hrecords : bootRecords (job.crashed point device) = [] := by
        apply bootRecords_of_no_match
        intro content hcontent hsame
        rw [hpath] at hcontent
        exact hmatch ⟨content, hcontent, hsame.trans hkept⟩
      have hempty (content : Bytes) : [] = recordsOf content ↔ recordsOf content = [] := ⟨Eq.symm, Eq.symm⟩
      simp only [Restores, hrecords, hempty, hstored, hmatch, false_or]

def sampleRun (name : Bytes) : SaveRun := ⟨true, 0, [{ zeroNode with name, qtype := kTypeA, nA := 1 }]⟩

def sampleJob (name : Bytes) : PersistJob := ⟨false, some (sampleRun name), none⟩

def sampleDevice (name : Bytes) : Device :=
  ⟨Function.update (fun _ ↦ none) kCacheDatPath (some (sampleRun name).content),
    Md5.file (sampleRun name).content⟩

theorem sampleDevice_storage (name : Bytes) :
    (sampleDevice name).storage kCacheDatPath = some (sampleRun name).content := by
  simp [sampleDevice]

theorem restores_iff_sample : Restores (sampleRun [0x61]).content (sampleJob [0x62])
        ((sampleJob [0x62]).crashed ⟨9, 0⟩ (sampleDevice [0x61])) ↔
      (sampleJob [0x62]).Stored ⟨9, 0⟩ ∨
      (∃ content ∈ destinationAt (some (sampleRun [0x61]).content) (sampleJob [0x62]).runs 9,
        Md5.file content = Md5.file (sampleRun [0x61]).content) ∨
      recordsOf (sampleRun [0x61]).content = [] ∨
      ∃ run ∈ (sampleJob [0x62]).runs, recordsOf run.content = [] :=
  restores_iff (sampleDevice_storage [0x61]) rfl (sampleJob [0x62]) ⟨9, 0⟩

/-- The machine stops between the removal of the old file and the rename of the new one: the next
boot finds no file and does not come to the recovery. -/
theorem restores_fails_between :
    (sampleDevice [0x61]).storage kCacheDatPath = some (sampleRun [0x61]).content ∧
      (sampleDevice [0x61]).storedMd5 = Md5.file (sampleRun [0x61]).content ∧
      (read (some (sampleRun [0x61]).content)).status = .ok ∧
      ¬Restores (sampleRun [0x61]).content (sampleJob [0x62])
        ((sampleJob [0x62]).crashed ⟨10, 0⟩ (sampleDevice [0x61])) := by
  refine ⟨sampleDevice_storage [0x61], rfl, ?_, ?_⟩ <;> decide +kernel

end DhcpServer.Dns.CacheFile
