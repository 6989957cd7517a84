import DhcpServer.Dns.CacheSaveRace
import DhcpServer.Dns.PersistJob
import DhcpServer.Web.DnsSettings

/-!
# The file and its checksum

Without crashes: persist jobs and autosaves write the file, only the jobs store its checksum, and
the checksum lies among the settings, where a post of the DNS settings writes a whole new
configuration over it. The runs of `saveToFile` are those that the cache makes while other tasks use
it.
-/

namespace DhcpServer.Dns.CacheFile

open Library
open InternalCache (Node Arena Inet Effect Tidy Sane nowMs kMaxNodes Cache WellFormed)

structure SaveRun.FromCache (run : SaveRun) : Prop where
  sane : ∀ node ∈ run.copies, writesNode node = true → Sane node
  length_le : run.copies.length ≤ kMaxNodes

theorem SaveRun.FromCache.checks {run : SaveRun} (hrun : run.FromCache) : run.checks := by
  have hsane : ∀ node ∈ run.copies.filter writesNode, Sane node := by
    intro node hnode
    obtain ⟨hmem, hwrites⟩ := List.mem_filter.mp hnode
    exact hrun.sane node hmem hwrites
  have hnames : ∀ node ∈ run.copies.filter writesNode, node.name ≠ [] := by
    intro node hnode hempty
    have hwrites := (List.mem_filter.mp hnode).2
    simp [writesNode, hempty] at hwrites
  have hcount : (run.copies.filter writesNode).length ≤ kMaxPlausibleRecords := by
    calc
      (run.copies.filter writesNode).length ≤ run.copies.length := List.length_filter_le _ _
      _ ≤ kMaxNodes := hrun.length_le
      _ ≤ kMaxPlausibleRecords := by decide
  have hread : read (some (headerBytes (run.copies.filter writesNode).length ++
      (run.copies.filter writesNode).flatMap (recordBytes run.ignoreTtl run.now))) = _ :=
    read_fileBytes hsane hnames hcount
  rw [SaveRun.checks, check, SaveRun.content, fileBytes, hread, SaveRun.written]
  simp

theorem PersistJob.outcome_of_fromCache {job : PersistJob} {first : SaveRun}
    (hfirst : job.first = some first) (hrun : first.FromCache) : job.outcome = ([first], true) := by
  simp [PersistJob.outcome, hfirst, hrun.checks]

end DhcpServer.Dns.CacheFile

namespace DhcpServer.Dns.CacheChecksum

open Library DhcpServer.Core DhcpServer.Core.AtomicFile CacheFile Web.DnsSettings

inductive Event
  | persistJob (job : PersistJob)
  /-- `CacheAutosave::saveNow`, with nothing where there is nothing to save. -/
  | saveNow (run : Option SaveRun)
  | postDnsSettings (body : Bytes)
  /-- An import reads the settings and writes them back, the checksum as it was. -/
  | importSettings
  | restart

structure State where
  device : Device
  saved : Bool

def start (device : Device) : State := ⟨device, false⟩

def textOf : DnsConfig.Value → Bytes
  | .str text => text
  | .int _ => []

/-- The load at boot recovers the file before it reads it. -/
def restarted (device : Device) : Device :=
  if readable device.storage kCacheDatPath && (checkCacheFileMd5 device).isMatch then
    { device with storage := recover kCacheDatPath device.storage }
  else device

def step (state : State) : Event → State
  | .persistJob job => ⟨job.apply state.device, state.saved || !job.runs.isEmpty⟩
  | .saveNow none => state
  | .saveNow (some run) =>
    ⟨{ state.device with storage := runCalls run.calls state.device.storage }, true⟩
  | .postDnsSettings body =>
    if body.isEmpty then state
    else
      { state with
        device.storedMd5 := textOf (posted body .cacheInternalFileMd5) }
  | .importSettings => state
  | .restart => { state with device := restarted state.device }

def Event.FromCache : Event → Prop
  | .persistJob job => ∀ first ∈ job.first, SaveRun.FromCache first
  | .saveNow run => ∀ taken ∈ run, SaveRun.FromCache taken
  | .postDnsSettings _ | .importSettings | .restart => True

/-- The file on the volume has the stored checksum, and the load at boot reads it. -/
def Accepted (device : Device) : Prop :=
  (checkCacheFileMd5 device).isMatch = true ∧
    ∃ content, device.storage kCacheDatPath = some content ∧ bootFile device = some content

/-- The claim on one state: a file that `saveToFile` wrote last is accepted. -/
def State.Holds (state : State) : Prop := state.saved = true → Accepted state.device

/-- The steps that keep the checksum of the file: an autosave leaves a file with the stored
checksum, and the settings are not posted once the device has written a file. -/
def Careful (state : State) : Event → Prop
  | .saveNow (some run) => Md5.file run.content = state.device.storedMd5
  | .postDnsSettings body => body = [] ∨ state.saved = false
  | .persistJob _ | .saveNow none | .importSettings | .restart => True

def Step (state : State) (event : Event) (state' : State) : Prop :=
  event.FromCache ∧ state' = step state event

def CarefulStep (state : State) (event : Event) (state' : State) : Prop :=
  Careful state event ∧ Step state event state'

/-- A file that `saveToFile` wrote last is there and has the stored checksum. -/
def State.Agrees (state : State) : Prop :=
  state.saved = true → ∃ content, state.device.storage kCacheDatPath = some content ∧
    Md5.file content = state.device.storedMd5

theorem State.Agrees.holds {state : State} (hagrees : state.Agrees) : state.Holds := by
  intro hsaved
  obtain ⟨content, hcontent, hmd5⟩ := hagrees hsaved
  have hmatch : (checkCacheFileMd5 state.device).isMatch := (isMatch_iff hcontent).mpr hmd5
  refine ⟨hmatch, content, hcontent, ?_⟩
  have hreadable : readable state.device.storage kCacheDatPath := by
    simp [readable, hcontent]
  rw [bootFile, hreadable, hmatch, Bool.and_true, if_pos rfl,
    recover_of_readable (by simp [hcontent]), hcontent]

theorem restarted_eq (device : Device) : restarted device = device := by
  rw [restarted]
  split_ifs with hboot
  · rw [Bool.and_eq_true, readable] at hboot
    rw [recover_of_readable hboot.1]
  · rfl

theorem agrees_step {state state' : State} {event : Event} (hagrees : state.Agrees)
    (hstep : CarefulStep state event state') : state'.Agrees := by
  obtain ⟨hcareful, hcache, rfl⟩ := hstep
  cases event with
  | persistJob job =>
    intro hsaved
    cases hfirst : job.first with
    | none =>
      have houtcome : job.outcome = ([], false) := by simp [PersistJob.outcome, hfirst]
      have happly : job.apply state.device = state.device := by
        simp [PersistJob.apply, PersistJob.steps, PersistJob.calls, PersistJob.runs,
          PersistJob.succeeds, houtcome]
      have hbefore : state.saved := by
        simpa [step, PersistJob.runs, houtcome] using hsaved
      simpa only [step, happly] using hagrees hbefore
    | some first =>
      have houtcome := job.outcome_of_fromCache hfirst (hcache first hfirst)
      have hsucceeds : job.succeeds := congrArg Prod.snd houtcome
      obtain ⟨run, -, hcontent, hmd5⟩ := job.apply_of_succeeds hsucceeds state.device
      exact ⟨run.content, hcontent, hmd5.symm⟩
  | saveNow run =>
    cases run with
    | none => exact hagrees
    | some run => exact fun _ ↦ ⟨run.content, run.saves.runCalls_path _, hcareful⟩
  | postDnsSettings body =>
    rcases hcareful with rfl | hunsaved
    · exact hagrees
    · intro hsaved
      have hbefore : state.saved := by
        simp only [step] at hsaved
        split_ifs at hsaved <;> exact hsaved
      simp [hunsaved] at hbefore
  | importSettings => exact hagrees
  | restart =>
    rw [step, restarted_eq]
    exact hagrees

/-- In every run of careful steps the next boot accepts the file the device wrote last. -/
theorem accepted_of_run {device : Device} {events : List Event} {last : State}
    (hrun : Run CarefulStep (start device) events last) : last.Holds := by
  have hstart : (start device).Agrees := fun hsaved ↦ by simp [start] at hsaved
  exact (hrun.preserves (fun _ _ _ hinv hstep ↦ agrees_step hinv hstep) hstart).holds

theorem fromCache_sampleRun (letter : UInt8) (hlower : InternalCache.lower [letter] = [letter])
    (hzero : 0 ≠ letter) : (sampleRun [letter]).FromCache := by
  constructor
  · intro node hnode _
    obtain rfl : node = _ := List.mem_singleton.mp hnode
    have hlength : 1 < InternalCache.kMaxNameLen := by decide
    have hcount : 1 ≤ InternalCache.kMaxA := by decide
    exact ⟨hlower, by simpa using hzero, hlength, .inl ⟨rfl, Nat.one_pos, hcount, rfl⟩⟩
  · have hroom : 1 ≤ InternalCache.kMaxNodes := by decide
    exact hroom

def emptyDevice : Device := ⟨fun _ ↦ none, []⟩

theorem accepted_of_run_job : (step (start emptyDevice) (.persistJob (sampleJob [0x61]))).Holds := by
  have hcache : (Event.persistJob (sampleJob [0x61])).FromCache := by
    rintro first ⟨⟩
    exact fromCache_sampleRun 0x61 (by decide) (by decide)
  have hstep : CarefulStep (start emptyDevice) (.persistJob (sampleJob [0x61]))
      (step (start emptyDevice) (.persistJob (sampleJob [0x61]))) := ⟨trivial, hcache, rfl⟩
  exact accepted_of_run (.cons hstep (.nil _))

/-- A save from the page, then an autosave of a cache that has changed: the autosave stores no
checksum, and the next boot refuses the file. -/
theorem accepted_fails_after_autosave : ∃ last, Run Step (start emptyDevice)
        [.persistJob (sampleJob [0x61]), .saveNow (some (sampleRun [0x62]))] last ∧
      ¬last.Holds := by
  have hjob : (Event.persistJob (sampleJob [0x61])).FromCache := by
    rintro first ⟨⟩
    exact fromCache_sampleRun 0x61 (by decide) (by decide)
  have hautosave : (Event.saveNow (some (sampleRun [0x62]))).FromCache := by
    rintro taken ⟨⟩
    exact fromCache_sampleRun 0x62 (by decide) (by decide)
  refine ⟨_, .cons ⟨hjob, rfl⟩ (.cons ⟨hautosave, rfl⟩ (.nil _)), ?_⟩
  intro hholds
  have hmatch := (hholds rfl).1
  revert hmatch
  decide +kernel

end DhcpServer.Dns.CacheChecksum
