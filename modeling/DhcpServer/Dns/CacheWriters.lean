import DhcpServer.Dns.PersistJob
import DhcpServer.Library.Run

/-!
# Two writers of one file

Persist jobs and the autosave, file call by file call. A volume tells apart names and files: a
handle stays on its file when the name is given to another one, and FatFS, configured without file
locks, lets two tasks open one name. Every byte carries the number of the run of `saveToFile` that
wrote it; `none` stands for bytes nobody wrote.
-/

namespace DhcpServer.Dns.CacheWriters

open Library Core.AtomicFile CacheFile List Function

abbrev Tagged := List (Option Nat × UInt8)

structure Volume where
  names : Bytes → Option Nat
  files : Nat → Tagged
  next : Nat

structure Handle where
  file : Nat
  position : Nat

/-- `content` with a write at `position`; a gap before it is filled by nobody. -/
def writeAt (content : Tagged) (position run : Nat) (bytes : Bytes) : Tagged :=
  content.take position ++ List.replicate (position - content.length) (none, 0) ++
    bytes.map (some run, ·) ++ content.drop (position + bytes.length)

namespace Volume

/-- `fopen` with `"wb"`: an existing file is truncated. -/
def openNew (volume : Volume) (path : Bytes) : Volume × Handle :=
  match volume.names path with
  | some file => ({ volume with files := update volume.files file [] }, ⟨file, 0⟩)
  | none =>
    ({ names := update volume.names path (some volume.next)
       files := update volume.files volume.next []
       next := volume.next + 1 }, ⟨volume.next, 0⟩)

def write (volume : Volume) (run : Nat) (handle : Handle) (bytes : Bytes) : Volume × Handle :=
  ({ volume with
      files := update volume.files handle.file
        (writeAt (volume.files handle.file) handle.position run bytes) },
    { handle with position := handle.position + bytes.length })

def rename (volume : Volume) (source target : Bytes) : Volume :=
  if (volume.names source).isSome && (volume.names target).isNone then
    { volume with
      names := update (update volume.names target (volume.names source))
        source none }
  else volume

end Volume

inductive FileStep
  | call (made : Call)
  /-- The test at the beginning of `publish`. -/
  | findPart

def partName : Bytes := partPath kCacheDatPath

def fileSteps (run : SaveRun) : List FileStep :=
  run.writes.map .call ++ .findPart :: (publishCalls kCacheDatPath).map .call

/-- A run on its way: its number, what it has still to do, and its open file. `opened` says that it
has opened the part. -/
structure Writer where
  run : Nat
  left : List FileStep
  handle : Option Handle := none
  opened : Bool := false

def Writer.advance (writer : Writer) (volume : Volume) : Writer × Volume :=
  match writer.left with
  | [] => (writer, volume)
  | .findPart :: left =>
    ({ writer with left := if (volume.names partName).isSome then left else [] }, volume)
  | .call made :: left =>
    match made, writer.handle with
    | .create path, _ =>
      let (volume, handle) := volume.openNew path
      ({ writer with left, handle := some handle, opened := true }, volume)
    | .append _ bytes, some handle =>
      let (volume, handle) := volume.write writer.run handle bytes
      ({ writer with left, handle := some handle }, volume)
    | .overwrite _ offset bytes, some handle =>
      let (volume, handle) := volume.write writer.run { handle with position := offset } bytes
      ({ writer with left, handle := some handle }, volume)
    | .append _ _, none | .overwrite _ _ _, none => ({ writer with left }, volume)
    | .close _, _ => ({ writer with left, handle := none }, volume)
    | .remove path, _ =>
      ({ writer with left }, { volume with names := update volume.names path none })
    | .rename source target, _ => ({ writer with left }, volume.rename source target)

/-- A call failed: the run closes its file and gives up, with or without removing the part. -/
def Writer.fail (writer : Writer) (cleanup : Bool) : Writer :=
  { writer with left := if cleanup then [.call (.remove partName)] else [], handle := none }

/-! ## The tasks -/

/-- How far the `recover` of a load has come. -/
inductive Recovery
  | start
  | pathMissing
  | partFound
  | done

/-- A persist job between the mutex section that started it and the one that ends it. -/
inductive Job
  /-- A save, with the run it is in, and how many more it may begin. -/
  | save (writer : Option Writer) (attempts : Nat)
  | load (recovery : Recovery)

structure State where
  volume : Volume
  persistBusy : Bool := false
  jobs : List Job := []
  autosave : Option Writer := none
  nextRun : Nat

inductive Event
  /-- The mutex section of `startPersistJob`: from the page, at boot, or for a restart. -/
  | startPersistJob (save : Bool)
  /-- A save job comes to the first file call of a `saveToFile` that has something to save. -/
  | beginSave (job : Nat) (run : SaveRun)
  | jobCall (job : Nat)
  | jobFails (job : Nat) (cleanup : Bool)
  /-- The next file call of the `recover` in a load job. -/
  | recoverCall (job : Nat)
  /-- The mutex section at the end of a job, or after its task could not be made. -/
  | endJob (job : Nat)
  /-- The autosave comes to the first file call of its `saveToFile`. -/
  | saveNow (run : SaveRun)
  | autosaveCall
  | autosaveFails (cleanup : Bool)

def Job.writer? : Job → Option Writer
  | save writer _ => writer
  | load _ => none

def Writer.running (writer : Writer) : Option Writer := if writer.left.isEmpty then none else some writer

def Recovery.advance (recovery : Recovery) (volume : Volume) : Recovery × Volume :=
  match recovery with
  | .start => (if (volume.names kCacheDatPath).isSome then .done else .pathMissing, volume)
  | .pathMissing => (if (volume.names partName).isSome then .partFound else .done, volume)
  | .partFound => (.done, volume.rename partName kCacheDatPath)
  | .done => (.done, volume)

def newWriter (state : State) (run : SaveRun) : Writer := ⟨state.nextRun, fileSteps run, none, false⟩

def step (state : State) : Event → Option State
  | .startPersistJob save =>
    if state.persistBusy then some state
    else
      some { state with
        persistBusy := true
        jobs := state.jobs ++ [if save then .save none 2 else .load .start] }
  | .beginSave job run =>
    match state.jobs[job]? with
    | some (.save none (attempts + 1)) =>
      some { state with
        jobs := state.jobs.set job (.save (some (newWriter state run)) attempts)
        nextRun := state.nextRun + 1 }
    | _ => none
  | .jobCall job =>
    match state.jobs[job]? with
    | some (.save (some writer) attempts) =>
      some { state with
        volume := (writer.advance state.volume).2
        jobs := state.jobs.set job (.save (writer.advance state.volume).1.running attempts) }
    | _ => none
  | .jobFails job cleanup =>
    match state.jobs[job]? with
    | some (.save (some writer) attempts) =>
      some { state with
        jobs := state.jobs.set job (.save (writer.fail cleanup).running attempts) }
    | _ => none
  | .recoverCall job =>
    match state.jobs[job]? with
    | some (.load recovery) =>
      some { state with
        volume := (recovery.advance state.volume).2
        jobs := state.jobs.set job (.load (recovery.advance state.volume).1) }
    | _ => none
  | .endJob job =>
    match state.jobs[job]? with
    | some (.save none _) | some (.load _) =>
      some { state with persistBusy := false, jobs := state.jobs.eraseIdx job }
    | _ => none
  | .saveNow run =>
    match state.autosave with
    | none =>
      some { state with
        autosave := some (newWriter state run)
        nextRun := state.nextRun + 1 }
    | some _ => none
  | .autosaveCall =>
    match state.autosave with
    | some writer =>
      some { state with
        volume := (writer.advance state.volume).2
        autosave := (writer.advance state.volume).1.running }
    | none => none
  | .autosaveFails cleanup =>
    match state.autosave with
    | some writer => some { state with autosave := (writer.fail cleanup).running }
    | none => none

def Step (state : State) (event : Event) (state' : State) : Prop := step state event = some state'

def State.writers (state : State) : List Writer := state.jobs.filterMap Job.writer? ++ state.autosave.toList

def Pure (content : Tagged) : Prop := ∃ run, ∀ byte ∈ content, byte.1 = some run

/-- The claim on one state: at most one run is between opening the part and publishing it, and the
published file is the work of one run. -/
def State.Holds (state : State) : Prop :=
  (state.writers.filter Writer.opened).length ≤ 1 ∧
    ∀ file ∈ state.volume.names kCacheDatPath, Pure (state.volume.files file)

/-- A save begins only while no other run of `saveToFile` is on its way. -/
def Careful (state : State) : Event → Prop
  | .beginSave _ _ => state.autosave = none
  | .saveNow _ => state.jobs.filterMap Job.writer? = []
  | _ => True

def CarefulStep (state : State) (event : Event) (state' : State) : Prop :=
  Careful state event ∧ Step state event state'

/-! ## One run on its own -/

/-- No write leaves a gap; `file` is the position and the length of the open file. -/
def Fits : (file : Option (Nat × Nat)) → List FileStep → Prop
  | _, [] => True
  | file, .findPart :: left => Fits file left
  | _, .call (.create _) :: left => Fits (some (0, 0)) left
  | some (position, length), .call (.append _ bytes) :: left =>
    position ≤ length ∧ Fits (some (position + bytes.length, max length (position + bytes.length))) left
  | some (_, length), .call (.overwrite _ offset bytes) :: left =>
    offset ≤ length ∧ Fits (some (offset + bytes.length, max length (offset + bytes.length))) left
  | none, .call (.append _ _) :: left | none, .call (.overwrite _ _ _) :: left => Fits none left
  | _, .call (.close _) :: left => Fits none left
  | file, .call (.remove _) :: left | file, .call (.rename _ _) :: left => Fits file left

theorem fits_append (path : Bytes) (chunks : List Bytes) {length : Nat} {left : List FileStep}
    (hleft : Fits (some (length + chunks.flatten.length, length + chunks.flatten.length)) left) :
    Fits (some (length, length)) ((chunks.map fun chunk ↦ .call (.append path chunk)) ++ left) := by
  induction chunks generalizing length with
  | nil => simpa using hleft
  | cons chunk chunks ih =>
    refine ⟨le_rfl, ?_⟩
    rw [max_eq_right (Nat.le_add_right _ _)]
    apply ih
    rwa [flatten_cons, length_append, ← Nat.add_assoc] at hleft

theorem fits_fileSteps (run : SaveRun) : Fits none (fileSteps run) := by
  have hchunks (chunks : List Bytes) :
      (chunks.map (Call.append partName)).map FileStep.call =
        chunks.map fun chunk ↦ .call (.append partName chunk) := by
    rw [map_map]
    rfl
  rw [fileSteps, SaveRun.writes, saveCalls, map_append, map_append, ← partName, hchunks]
  simp only [append_assoc]
  apply fits_append
  -- the header alone is longer than the place of the count
  refine ⟨?_, trivial⟩
  rw [flatten_cons, length_append]
  have hheader : (headerBytes 0).length = kHeaderBytes := rfl
  have hplace : kCountOffset ≤ kHeaderBytes := by decide
  omega

/-- The open file holds bytes of this run only, and no write to come leaves a gap. -/
structure Writer.Sound (writer : Writer) (volume : Volume) : Prop where
  own : ∀ handle ∈ writer.handle, ∀ byte ∈ volume.files handle.file, byte.1 = some writer.run
  fits : Fits (writer.handle.map fun handle ↦
    (handle.position, (volume.files handle.file).length)) writer.left

def Volume.Pure (volume : Volume) : Prop := ∀ file, CacheWriters.Pure (volume.files file)

theorem Volume.Pure.update {volume : Volume} (hpure : volume.Pure) {file run : Nat}
    {content : Tagged} (hcontent : ∀ byte ∈ content, byte.1 = some run) (other : Nat) :
    CacheWriters.Pure (update volume.files file content other) := by
  by_cases hother : other = file
  · subst hother
    rw [update_self]
    exact ⟨run, hcontent⟩
  · rw [update_of_ne hother]
    exact hpure other

theorem writeAt_own {content : Tagged} {position run : Nat}
    (hown : ∀ byte ∈ content, byte.1 = some run) (hposition : position ≤ content.length)
    (bytes : Bytes) : ∀ byte ∈ writeAt content position run bytes, byte.1 = some run := by
  intro byte hbyte
  rw [writeAt, Nat.sub_eq_zero_of_le hposition, replicate_zero, append_nil, mem_append, mem_append] at hbyte
  rcases hbyte with (hbyte | hbyte) | hbyte
  · exact hown byte (mem_of_mem_take hbyte)
  · obtain ⟨written, -, rfl⟩ := mem_map.mp hbyte
    rfl
  · exact hown byte (mem_of_mem_drop hbyte)

theorem length_writeAt {content : Tagged} {position : Nat} (hposition : position ≤ content.length)
    (run : Nat) (bytes : Bytes) :
    (writeAt content position run bytes).length = max content.length (position + bytes.length) := by
  simp only [writeAt, length_append, length_take, length_replicate, length_map, length_drop]
  omega

variable {writer : Writer}

theorem Writer.Sound.write {volume : Volume} (hpure : volume.Pure)
    {handle : Handle} (hown : ∀ byte ∈ volume.files handle.file, byte.1 = some writer.run)
    {bytes : Bytes} {left : List FileStep}
    (hposition : handle.position ≤ (volume.files handle.file).length)
    (hfits : Fits (some (handle.position + bytes.length,
      max (volume.files handle.file).length (handle.position + bytes.length))) left) :
    (volume.write writer.run handle bytes).1.Pure ∧
      ({ writer with left, handle := some (volume.write writer.run handle bytes).2 } : Writer).Sound
        (volume.write writer.run handle bytes).1 := by
  have hwritten := writeAt_own hown hposition bytes
  refine ⟨fun file ↦ hpure.update hwritten file, ?_, ?_⟩
  · rintro same ⟨⟩
    simpa [Volume.write] using hwritten
  · simpa [Volume.write, length_writeAt hposition] using hfits

theorem Writer.Sound.advance {volume : Volume} (hsound : writer.Sound volume)
    (hpure : volume.Pure) :
    (writer.advance volume).2.Pure ∧ (writer.advance volume).1.Sound (writer.advance volume).2 := by
  obtain ⟨hown, hfits⟩ := hsound
  obtain ⟨run, left, handle, opened⟩ := writer
  rw [Writer.advance]
  split
  · exact ⟨hpure, hown, hfits⟩
  · next left hleft =>
    obtain rfl : _ = _ := hleft
    refine ⟨hpure, hown, ?_⟩
    split_ifs
    · exact hfits
    · trivial
  · next made left hleft =>
    obtain rfl : _ = _ := hleft
    cases made with
    | create path =>
      have hempty : ∀ byte ∈ ([] : Tagged), byte.1 = some run := by simp
      have htruncated (file : Nat) : ∀ byte ∈ update volume.files file [] file,
          byte.1 = some run := by simp
      have hopened : Fits (some (0, 0)) left := by
        cases handle <;> exact hfits
      dsimp only [Volume.openNew]
      cases volume.names path with
      | some file =>
        refine ⟨fun other ↦ hpure.update hempty other, ?_, ?_⟩
        · rintro same ⟨⟩
          exact htruncated file
        · simpa using hopened
      | none =>
        refine ⟨fun other ↦ hpure.update hempty other, ?_, ?_⟩
        · rintro same ⟨⟩
          exact htruncated volume.next
        · simpa using hopened
    | append path bytes =>
      cases handle with
      | none => exact ⟨hpure, hown, hfits⟩
      | some handle => exact Writer.Sound.write hpure (hown handle rfl) hfits.1 hfits.2
    | overwrite path offset bytes =>
      cases handle with
      | none => exact ⟨hpure, hown, hfits⟩
      | some handle =>
        have hmoved : ∀ byte ∈ volume.files ({ handle with position := offset } : Handle).file,
            byte.1 = some run := hown handle rfl
        exact Writer.Sound.write hpure hmoved hfits.1 hfits.2
    | close path => exact ⟨hpure, by simp, hfits⟩
    | remove path => exact ⟨hpure, hown, hfits⟩
    | rename source target =>
      have hfiles : (volume.rename source target).files = volume.files := by
        rw [Volume.rename]
        split_ifs <;> rfl
      refine ⟨fun file ↦ hfiles ▸ hpure file, ?_, ?_⟩
      · simpa only [hfiles] using hown
      · rw [hfiles]
        cases handle <;> exact hfits

theorem Writer.Sound.fail (volume : Volume) (cleanup : Bool) : (writer.fail cleanup).Sound volume := by
  refine ⟨by simp [Writer.fail], ?_⟩
  cases cleanup <;> trivial

/-! ## All tasks -/

structure State.Sound (state : State) : Prop where
  busy : state.jobs.length = if state.persistBusy then 1 else 0
  single : state.writers.length ≤ 1
  pure : state.volume.Pure
  writer : ∀ writer ∈ state.writers, writer.Sound state.volume

variable {state : State}

theorem State.Sound.holds (hsound : state.Sound) : state.Holds :=
  ⟨(length_filter_le _ _).trans hsound.single, fun file _ ↦ hsound.pure file⟩

theorem State.Sound.jobs_eq (hsound : state.Sound) {index : Nat} {job : Job}
    (hjob : state.jobs[index]? = some job) : index = 0 ∧ state.jobs = [job] := by
  have hbusy := hsound.busy
  have hlength : state.jobs.length ≤ 1 := by
    rw [hbusy]
    split <;> omega
  match hjobs : state.jobs with
  | [] => simp [hjobs] at hjob
  | [only] =>
    rw [hjobs] at hjob
    cases index with
    | zero => exact ⟨rfl, by simpa using hjob⟩
    | succ index => simp at hjob
  | _ :: _ :: _ => simp [hjobs] at hlength

theorem State.sound_of_writers
    (hbusy : state.jobs.length = if state.persistBusy then 1 else 0) (hpure : state.volume.Pure)
    (writer? : Option Writer) (hwriters : state.writers = writer?.toList)
    (hwriter : ∀ writer ∈ writer?, writer.Sound state.volume) : state.Sound := by
  refine ⟨hbusy, ?_, hpure, ?_⟩
  · rw [hwriters]
    cases writer? <;> simp
  · intro writer hmem
    rw [hwriters, Option.mem_toList] at hmem
    exact hwriter writer hmem

theorem State.Sound.autosave (hsound : state.Sound) :
    ∀ writer ∈ state.autosave, writer.Sound state.volume := by
  intro writer hwriter
  exact hsound.writer writer (mem_append_right _ (Option.mem_toList.mpr hwriter))

theorem Writer.mem_running {writer same : Writer} (hmem : same ∈ writer.running) : same = writer := by
  rw [Writer.running] at hmem
  split_ifs at hmem
  · simp at hmem
  · exact (Option.some.inj hmem).symm

theorem newWriter_sound (state : State) (run : SaveRun) (volume : Volume) :
    (newWriter state run).Sound volume :=
  ⟨by simp [newWriter], fits_fileSteps run⟩

theorem State.Sound.autosave_eq_none (hsound : state.Sound)
    {attempts : Nat} (hjobs : state.jobs = [.save (some writer) attempts]) :
    state.autosave = none := by
  have hsingle := hsound.single
  rw [State.writers, hjobs] at hsingle
  cases hautosave : state.autosave with
  | none => rfl
  | some other => simp [hautosave, Job.writer?] at hsingle

theorem State.Sound.jobs_idle (hsound : state.Sound)
    (hautosave : state.autosave = some writer) : state.jobs.filterMap Job.writer? = [] := by
  have hsingle := hsound.single
  rw [State.writers, hautosave] at hsingle
  apply eq_nil_of_length_eq_zero
  simp at hsingle ⊢
  omega

theorem State.Sound.step {state state' : State} {event : Event} (hsound : state.Sound)
    (hstep : CarefulStep state event state') : state'.Sound := by
  obtain ⟨hcareful, hstep⟩ := hstep
  rw [Step] at hstep
  have hbusy := hsound.busy
  cases event with
  | startPersistJob save =>
    rw [CacheWriters.step] at hstep
    by_cases hflag : state.persistBusy
    · rw [if_pos hflag] at hstep
      cases hstep
      exact hsound
    · rw [if_neg hflag] at hstep
      cases hstep
      rw [if_neg hflag, length_eq_zero_iff] at hbusy
      refine State.sound_of_writers (by simp [hbusy]) hsound.pure state.autosave ?_
        hsound.autosave
      cases save <;> simp [State.writers, hbusy, Job.writer?]
  | beginSave job run =>
    rw [CacheWriters.step] at hstep
    split at hstep
    case h_2 => cases hstep
    case h_1 attempts hjob =>
      cases hstep
      obtain ⟨rfl, hjobs⟩ := hsound.jobs_eq hjob
      refine State.sound_of_writers (by simpa using hbusy) hsound.pure
        (some (newWriter state run)) ?_ ?_
      · simp [State.writers, hjobs, Job.writer?, show state.autosave = none from hcareful]
      · rintro writer ⟨⟩
        exact newWriter_sound state run _
  | jobCall job =>
    rw [CacheWriters.step] at hstep
    split at hstep
    case h_2 => cases hstep
    case h_1 writer attempts hjob =>
      cases hstep
      obtain ⟨rfl, hjobs⟩ := hsound.jobs_eq hjob
      have hwriter : writer.Sound state.volume :=
        hsound.writer writer (by simp [State.writers, hjobs, Job.writer?])
      obtain ⟨hpure, hadvanced⟩ := hwriter.advance hsound.pure
      refine State.sound_of_writers (by simpa using hbusy) hpure
        (writer.advance state.volume).1.running ?_ ?_
      · cases (writer.advance state.volume).1.running <;>
          simp [State.writers, hjobs, Job.writer?, hsound.autosave_eq_none hjobs]
      · intro same hsame
        rw [Writer.mem_running hsame]
        exact hadvanced
  | jobFails job cleanup =>
    rw [CacheWriters.step] at hstep
    split at hstep
    case h_2 => cases hstep
    case h_1 writer attempts hjob =>
      cases hstep
      obtain ⟨rfl, hjobs⟩ := hsound.jobs_eq hjob
      refine State.sound_of_writers (by simpa using hbusy) hsound.pure
        (writer.fail cleanup).running ?_ ?_
      · cases (writer.fail cleanup).running <;>
          simp [State.writers, hjobs, Job.writer?, hsound.autosave_eq_none hjobs]
      · intro same hsame
        rw [Writer.mem_running hsame]
        exact Writer.Sound.fail state.volume cleanup
  | recoverCall job =>
    rw [CacheWriters.step] at hstep
    split at hstep
    case h_2 => cases hstep
    case h_1 recovery hjob =>
      cases hstep
      obtain ⟨rfl, hjobs⟩ := hsound.jobs_eq hjob
      have hfiles : (recovery.advance state.volume).2.files = state.volume.files := by
        cases recovery <;> simp only [Recovery.advance, Volume.rename]
        split_ifs <;> rfl
      refine State.sound_of_writers (by simpa using hbusy) (fun file ↦ ?_) state.autosave ?_ ?_
      · exact hfiles ▸ hsound.pure file
      · simp [State.writers, hjobs, Job.writer?]
      · intro writer hwriter
        obtain ⟨hown, hfits⟩ := hsound.autosave writer hwriter
        exact ⟨by simpa only [hfiles] using hown, by simpa only [hfiles] using hfits⟩
  | endJob job =>
    have hended {ended : Job} (hjob : state.jobs[job]? = some ended) :
        State.Sound { state with persistBusy := false, jobs := state.jobs.eraseIdx job } := by
      obtain ⟨rfl, hjobs⟩ := hsound.jobs_eq hjob
      refine State.sound_of_writers (by simp [hjobs]) hsound.pure state.autosave ?_
        hsound.autosave
      simp [State.writers, hjobs]
    rw [CacheWriters.step] at hstep
    split at hstep
    case h_1 attempts hjob =>
      cases hstep
      exact hended hjob
    case h_2 recovery hjob =>
      cases hstep
      exact hended hjob
    case h_3 => cases hstep
  | saveNow run =>
    rw [CacheWriters.step] at hstep
    split at hstep
    case h_2 => cases hstep
    case h_1 hautosave =>
      cases hstep
      refine State.sound_of_writers hbusy hsound.pure (some (newWriter state run)) ?_ ?_
      · simp [State.writers, show state.jobs.filterMap Job.writer? = [] from hcareful]
      · rintro writer ⟨⟩
        exact newWriter_sound state run _
  | autosaveCall =>
    rw [CacheWriters.step] at hstep
    split at hstep
    case h_2 => cases hstep
    case h_1 writer hautosave =>
      cases hstep
      have hwriter : writer.Sound state.volume := hsound.writer writer (by simp [State.writers, hautosave])
      obtain ⟨hpure, hadvanced⟩ := hwriter.advance hsound.pure
      refine State.sound_of_writers hbusy hpure (writer.advance state.volume).1.running ?_ ?_
      · simp [State.writers, hsound.jobs_idle hautosave]
      · intro same hsame
        rw [Writer.mem_running hsame]
        exact hadvanced
  | autosaveFails cleanup =>
    rw [CacheWriters.step] at hstep
    split at hstep
    case h_2 => cases hstep
    case h_1 writer hautosave =>
      cases hstep
      refine State.sound_of_writers hbusy hsound.pure (writer.fail cleanup).running ?_ ?_
      · simp [State.writers, hsound.jobs_idle hautosave]
      · intro same hsame
        rw [Writer.mem_running hsame]
        exact Writer.Sound.fail state.volume cleanup

def start (volume : Volume) (nextRun : Nat) : State := { volume, nextRun }

/-- In every run of careful steps there is one writer at a time, and every published file is the
work of one run of `saveToFile`. -/
theorem single_writer_of_run {volume : Volume} {nextRun : Nat} (hpure : volume.Pure)
    {events : List Event} {last : State}
    (hrun : Run CarefulStep (start volume nextRun) events last) : last.Holds := by
  have hstart : (start volume nextRun).Sound := by
    refine State.sound_of_writers rfl hpure none rfl ?_
    simp
  exact (hrun.preserves (fun _ _ _ hinv hstep ↦ hinv.step hstep) hstart).holds

def emptyVolume : Volume := ⟨fun _ ↦ none, fun _ ↦ [], 0⟩

theorem pure_emptyVolume : emptyVolume.Pure := fun _ ↦ ⟨0, by simp [emptyVolume]⟩

/-- A save from the page has opened the part. -/
theorem single_writer_of_run_job : ∃ last, Run CarefulStep (start emptyVolume 0)
        [.startPersistJob true, .beginSave 0 (sampleRun [0x61]), .jobCall 0] last ∧ last.Holds := by
  have hrun : ∃ last, Run CarefulStep (start emptyVolume 0)
      [.startPersistJob true, .beginSave 0 (sampleRun [0x61]), .jobCall 0] last :=
    ⟨_, .cons ⟨trivial, rfl⟩ (.cons ⟨rfl, rfl⟩ (.cons ⟨trivial, rfl⟩ (.nil _)))⟩
  obtain ⟨last, hlast⟩ := hrun
  exact ⟨last, hlast, single_writer_of_run pure_emptyVolume hlast⟩

/-- The timer of the autosave goes off while a save from the page is writing: both have opened the
part. -/
theorem single_writer_fails_autosave : ∃ last, Run Step (start emptyVolume 0)
        [.startPersistJob true, .beginSave 0 (sampleRun [0x61]), .jobCall 0,
          .saveNow (sampleRun [0x62]), .autosaveCall] last ∧ ¬last.Holds := by
  refine ⟨_, .cons rfl (.cons rfl (.cons rfl (.cons rfl (.cons rfl (.nil _))))), ?_⟩
  intro hholds
  have hsingle := hholds.1
  revert hsingle
  decide

end DhcpServer.Dns.CacheWriters
