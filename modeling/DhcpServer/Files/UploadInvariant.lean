import DhcpServer.Files.UploadRows
import DhcpServer.Library.Parties

/-!
# Whose row a row is

Where every step is orderly, an upload that is under way shares neither its row nor its file with another
one, and its row, if it has one, is its own. A row that is shown as paused belongs to the remembered upload,
to one that is about to be remembered, or to one that a stop is dropping.
-/

namespace DhcpServer.Files.UploadRows

open Library Core.JobRegistry List

/-- The row of the upload is not begun yet, or a pause before it may still be remembered. -/
def Upload.early (upload : Upload) : Bool :=
  match upload.stage with
  | .opening | .beginning | .forgetting => true
  | _ => false

def Upload.begun (upload : Upload) : Bool :=
  match upload.stage with
  | .checking | .opening | .beginning | .ended => false
  | _ => true

/-- What an upload that is under way finds in its row, if the row is there. -/
def Stage.Finds (state : JobState) : Stage → Prop
  | .checking | .opening | .beginning => True
  | .remembering => state = .paused
  | .forgettingDone | .ended => False
  | _ => state = .running

def PausedUpload.Holds (paused : PausedUpload) (id : Bytes) (file : Option File) : Prop :=
  paused.id = id ∧ paused.file = file

def Stop.Honest (stop : Stop) : Prop :=
  match stop.stage with
  | .requesting | .taking => stop.took = false
  | .discarding _ _ => True
  | .finishing _ => stop.removed = true
  | .ended => stop.took = true → stop.removed = true ∧ stop.ended = true

/-- Nobody under way or being dropped uses the row or the file, apart from the upload itself. -/
structure Clear (state : State) (number : Nat) (id : Bytes) (file : Option File) : Prop where
  uploads : ∀ place other, place ≠ number → state.uploads[place]? = some other → other.live = true →
    other.id ≠ id ∧ other.file ≠ file
  stops : ∀ stop ∈ state.stops, stop.drops = true → stop.id ≠ id ∧ stop.target ≠ file

structure Sound (state : State) : Prop where
  once : ∀ path record, state.shared.registry.recordOf (uploadJobId path) = some record →
    record.job.repeatSec = 0 ∧ Registry.Unfinished record.job
  running : ∀ path record, state.shared.registry.recordOf (uploadJobId path) = some record →
    record.job.state = .running → ∃ upload ∈ state.uploads, upload.id = uploadJobId path ∧
      upload.begun = true
  paused : ∀ path record, state.shared.registry.recordOf (uploadJobId path) = some record →
    record.job.state = .paused →
      state.shared.paused.Holds (uploadJobId path) (state.shared.rowFile (uploadJobId path)) ∨
      (∃ upload ∈ state.uploads, upload.id = uploadJobId path ∧ upload.stage = .remembering) ∨
      ∃ stop ∈ state.stops, stop.id = uploadJobId path ∧ stop.drops = true ∧
        stop.target = state.shared.rowFile (uploadJobId path)
  remembered : state.shared.paused.id ≠ [] →
    state.shared.paused.id = uploadJobId state.shared.paused.path ∧ state.shared.paused.file.isSome = true
  clear : ∀ number upload, state.uploads[number]? = some upload → upload.live = true →
    Clear state number upload.id upload.file
  resumed : ∀ upload ∈ state.uploads, upload.live = true → state.shared.paused.id ≠ [] →
    (state.shared.paused.id = upload.id ↔ state.shared.paused.file = upload.file) ∧
      (state.shared.paused.id = upload.id → upload.early = true)
  valid : ∀ upload ∈ state.uploads, upload.live = true → upload.file.isSome = true
  rows : ∀ upload ∈ state.uploads, upload.live = true → ∀ record,
    state.shared.registry.recordOf upload.id = some record →
      state.shared.rowFile upload.id = upload.file ∧ upload.stage.Finds record.job.state
  aims : ∀ stop ∈ state.stops, ∀ volume path, stop.stage = .discarding volume path →
    stop.target = fileOf volume path
  ids : ∀ stop ∈ state.stops, ∃ path, stop.id = uploadJobId path
  honest : ∀ stop ∈ state.stops, stop.Honest
  own : state.shared.stray = false
  apart : state.shared.mixed = false

theorem sound_start : Sound {} where
  once path record hrecord := by
    have hnone : Registry.empty.recordOf (uploadJobId path) = some record := hrecord
    rw [Registry.recordOf_empty] at hnone
    cases hnone
  running path record hrecord := by
    have hnone : Registry.empty.recordOf (uploadJobId path) = some record := hrecord
    rw [Registry.recordOf_empty] at hnone
    cases hnone
  paused path record hrecord := by
    have hnone : Registry.empty.recordOf (uploadJobId path) = some record := hrecord
    rw [Registry.recordOf_empty] at hnone
    cases hnone
  remembered hid := absurd rfl hid
  clear number upload hupload := by simp at hupload
  resumed := by simp
  valid := by simp
  rows := by simp
  aims := by simp
  ids := by simp
  honest := by simp
  own := rfl
  apart := rfl

@[simp] theorem uploadJobId_ne_nil (path : Bytes) : uploadJobId path ≠ [] := by
  intro hnil
  have hprefix : uploadPrefix = [] := (append_eq_nil_iff.mp hnil).1
  revert hprefix
  decide

theorem Upload.live_of_begun {upload : Upload} (hbegun : upload.begun) : upload.live := by
  rw [Upload.begun] at hbegun
  rw [Upload.live]
  cases hstage : upload.stage <;> simp [hstage] at hbegun ⊢

theorem Upload.live_of_writes {upload : Upload} (hwrites : upload.writes) : upload.live := by
  rw [Upload.writes] at hwrites
  rw [Upload.live]
  cases hstage : upload.stage <;> simp [hstage] at hwrites ⊢

/-- The row of the upload, if it is there, shows that it runs. -/
def Stage.working : Stage → Bool
  | .receiving _ | .looking _ | .reporting _ | .judging _ | .aborting _ | .keeping | .pausing
  | .committing | .finishing _ => true
  | _ => false

theorem Stage.finds_of_working {stage : Stage} (hworking : stage.working) (state : JobState) :
    stage.Finds state ↔ state = .running := by
  cases stage with
  | receiving | looking | reporting | judging | aborting | keeping | pausing | committing | finishing =>
    exact .rfl
  | checking | opening | beginning | forgetting | remembering | forgettingDone | ended => cases hworking

theorem Upload.begun_of_working {upload : Upload} (hworking : upload.stage.working) :
    upload.begun ∧ upload.early = false ∧ upload.stage ≠ .remembering := by
  rw [Upload.begun, Upload.early]
  cases hstage : upload.stage <;> simp [hstage, Stage.working] at hworking ⊢

theorem Shared.setPart_eq (shared : Shared) (file : Option File) (change : Option Nat → Option Nat) :
    ∃ parts, shared.setPart file change = { shared with parts } := by
  cases file with
  | none => exact ⟨shared.parts, rfl⟩
  | some file => exact ⟨_, rfl⟩

/-- What a step of an upload may change. Its own row and the record of the pause fit where it comes to; the
other rows stay or go. -/
structure Change (state : State) (number : Nat) (upload moved : Upload) (shared : Shared) : Prop where
  active : upload.live = true ∨ moved.live = true
  path : moved.path = upload.path
  volume : moved.volume = upload.volume
  others : ∀ path record, uploadJobId path ≠ upload.id →
    shared.registry.recordOf (uploadJobId path) = some record →
    state.shared.registry.recordOf (uploadJobId path) = some record
  rowFile : ∀ id, id ≠ upload.id → shared.rowFile id = state.shared.rowFile id
  once : ∀ record, shared.registry.recordOf upload.id = some record →
    record.job.repeatSec = 0 ∧ Registry.Unfinished record.job
  running : ∀ record, shared.registry.recordOf upload.id = some record → record.job.state = .running →
    moved.begun = true
  paused : ∀ record, shared.registry.recordOf upload.id = some record → record.job.state = .paused →
    shared.paused.Holds upload.id (shared.rowFile upload.id) ∨ moved.stage = .remembering ∨
      ∃ stop ∈ state.stops, stop.id = upload.id ∧ stop.drops = true ∧ stop.target = shared.rowFile upload.id
  remembered : shared.paused = state.shared.paused ∨
    state.shared.paused.id = upload.id ∧ shared.paused = {} ∨
    state.shared.paused.id = [] ∧ upload.live = true ∧
      shared.paused = ⟨upload.id, upload.volume, upload.path⟩
  resumed : moved.live = true → shared.paused.id ≠ [] →
    (shared.paused.id = upload.id ↔ shared.paused.file = upload.file) ∧
      (shared.paused.id = upload.id → moved.early = true)
  entered : moved.live = true → upload.live = true ∨
    Clear state number upload.id upload.file ∧ upload.file.isSome = true
  rows : moved.live = true → ∀ record, shared.registry.recordOf upload.id = some record →
    shared.rowFile upload.id = upload.file ∧ moved.stage.Finds record.job.state
  own : shared.stray = false
  apart : shared.mixed = false

section Change

variable {state : State} {number : Nat} {upload moved : Upload} {shared : Shared}
  (hchange : Change state number upload moved shared)

include hchange

theorem Change.id_eq : moved.id = upload.id := by rw [Upload.id, Upload.id, hchange.path]

theorem Change.file_eq : moved.file = upload.file := by
  rw [Upload.file, Upload.file, hchange.path, hchange.volume]

theorem Change.kept {id : Bytes} {file : Option File} (hid : id ≠ upload.id) (hnil : id ≠ [])
    (hholds : state.shared.paused.Holds id file) : shared.paused.Holds id file := by
  rcases hchange.remembered with hsame | ⟨hown, -⟩ | ⟨hnone, -⟩
  · rwa [hsame]
  · exact absurd (hholds.1.symm.trans hown) hid
  · exact absurd (hholds.1.symm.trans hnone) hnil

end Change

section Sound

variable {state : State} (hsound : Sound state)

include hsound

theorem Sound.of_change {number : Nat} {upload moved : Upload} {shared : Shared}
    (hupload : state.uploads[number]? = some upload)
    (hchange : Change state number upload moved shared) :
    Sound { state with shared, uploads := state.uploads.set number moved } := by
  have hmem : upload ∈ state.uploads := mem_of_getElem? hupload
  have hmoved : moved ∈ state.uploads.set number moved := mem_set (List.getElem?_eq_some_iff.mp hupload).1 _
  have hid := hchange.id_eq
  have hfile := hchange.file_eq
  have hclear : Clear state number upload.id upload.file := by
    rcases hchange.active with hlive | hlive
    · exact hsound.clear number upload hupload hlive
    · rcases hchange.entered hlive with hold | hnew
      · exact hsound.clear number upload hupload hold
      · exact hnew.1
  have hvalid (hlive : moved.live = true) : upload.file.isSome = true := by
    rcases hchange.entered hlive with hold | hnew
    · exact hsound.valid upload hmem hold
    · exact hnew.2
  have hkeeps {other : Upload} {id : Bytes} (hother : other ∈ state.uploads) (hotherId : other.id = id)
      (hne : id ≠ upload.id) : other ∈ state.uploads.set number moved := by
    rcases mem_set_or_eq hupload hother with hkept | rfl
    · exact hkept
    · exact absurd hotherId.symm hne
  refine ⟨?_, ?_, ?_, ?_, ?_, ?_, ?_, ?_, hsound.aims, hsound.ids, hsound.honest, hchange.own,
    hchange.apart⟩
  · intro path record hrecord
    by_cases hpath : uploadJobId path = upload.id
    · exact hchange.once record (hpath ▸ hrecord)
    · exact hsound.once path record (hchange.others path record hpath hrecord)
  · intro path record hrecord hrunning
    by_cases hpath : uploadJobId path = upload.id
    · exact ⟨moved, hmoved, hid.trans hpath.symm, hchange.running record (hpath ▸ hrecord) hrunning⟩
    · obtain ⟨other, hother, hotherId, hbegun⟩ :=
        hsound.running path record (hchange.others path record hpath hrecord) hrunning
      exact ⟨other, hkeeps hother hotherId hpath, hotherId, hbegun⟩
  · intro path record hrecord hpaused
    by_cases hpath : uploadJobId path = upload.id
    · rw [hpath]
      rcases hchange.paused record (hpath ▸ hrecord) hpaused with hholds | hgap | hdrops
      · exact .inl hholds
      · exact .inr (.inl ⟨moved, hmoved, hid, hgap⟩)
      · exact .inr (.inr hdrops)
    · rw [hchange.rowFile _ hpath]
      rcases hsound.paused path record (hchange.others path record hpath hrecord) hpaused with
        hholds | ⟨other, hother, hotherId, hgap⟩ | hdrops
      · exact .inl (hchange.kept hpath (uploadJobId_ne_nil path) hholds)
      · exact .inr (.inl ⟨other, hkeeps hother hotherId hpath, hotherId, hgap⟩)
      · exact .inr (.inr hdrops)
  · intro hnil
    rcases hchange.remembered with hsame | ⟨-, hnone⟩ | ⟨-, hlive, hnew⟩
    · rw [hsame] at hnil ⊢
      exact hsound.remembered hnil
    · exact absurd (congrArg PausedUpload.id hnone) hnil
    · rw [hnew]
      exact ⟨rfl, hsound.valid upload hmem hlive⟩
  · intro place other hother hlive
    rcases getElem?_set_cases hupload hother with ⟨rfl, rfl⟩ | ⟨hplace, hold⟩
    · rw [hid, hfile]
      refine ⟨fun later third hlater hthird hthirdLive ↦ ?_, hclear.stops⟩
      rcases getElem?_set_cases hupload hthird with ⟨hsame, -⟩ | ⟨-, hthirdOld⟩
      · exact absurd hsame hlater
      · exact hclear.uploads later third hlater hthirdOld hthirdLive
    · have hself := hsound.clear place other hold hlive
      refine ⟨fun later third hlater hthird hthirdLive ↦ ?_, hself.stops⟩
      rcases getElem?_set_cases hupload hthird with ⟨rfl, rfl⟩ | ⟨-, hthirdOld⟩
      · have hthis := hclear.uploads place other hplace hold hlive
        rw [hid, hfile]
        exact ⟨hthis.1.symm, hthis.2.symm⟩
      · exact hself.uploads later third hlater hthirdOld hthirdLive
  · intro other hother hlive hnil
    obtain ⟨place, hplace⟩ := mem_iff_getElem?.mp hother
    rcases getElem?_set_cases hupload hplace with ⟨-, rfl⟩ | ⟨hne, hold⟩
    · rw [hid, hfile]
      exact hchange.resumed hlive hnil
    · have hapart := hclear.uploads place other hne hold hlive
      rcases hchange.remembered with hsame | ⟨-, hnone⟩ | ⟨-, -, hnew⟩
      · rw [hsame] at hnil ⊢
        exact hsound.resumed other (mem_of_getElem? hold) hlive hnil
      · exact absurd (congrArg PausedUpload.id hnone) hnil
      · rw [hnew]
        exact ⟨iff_of_false hapart.1.symm hapart.2.symm, fun hsame ↦ absurd hsame.symm hapart.1⟩
  · intro other hother hlive
    rcases mem_or_eq_of_mem_set hother with hold | rfl
    · exact hsound.valid other hold hlive
    · rw [hfile]
      exact hvalid hlive
  · intro other hother hlive record hrecord
    obtain ⟨place, hplace⟩ := mem_iff_getElem?.mp hother
    rcases getElem?_set_cases hupload hplace with ⟨-, rfl⟩ | ⟨hne, hold⟩
    · rw [hid] at hrecord ⊢
      rw [hfile]
      exact hchange.rows hlive record hrecord
    · have hapart := hclear.uploads place other hne hold hlive
      rw [hchange.rowFile _ hapart.1]
      exact hsound.rows other (mem_of_getElem? hold) hlive record
        (hchange.others other.path record hapart.1 hrecord)

theorem Sound.of_live {uploads : List Upload}
    (hsame : ∀ (place : Nat) (other : Upload), other.live →
      (uploads[place]? = some other ↔ state.uploads[place]? = some other)) :
    Sound { state with uploads } := by
  have hkeeps {other : Upload} (hother : other ∈ state.uploads) (hlive : other.live = true) :
      other ∈ uploads := by
    obtain ⟨place, hplace⟩ := mem_iff_getElem?.mp hother
    exact mem_of_getElem? ((hsame place other hlive).mpr hplace)
  have hold {other : Upload} (hother : other ∈ uploads) (hlive : other.live = true) :
      other ∈ state.uploads := by
    obtain ⟨place, hplace⟩ := mem_iff_getElem?.mp hother
    exact mem_of_getElem? ((hsame place other hlive).mp hplace)
  refine ⟨hsound.once, ?_, ?_, hsound.remembered, ?_, ?_, ?_, ?_, hsound.aims, hsound.ids, hsound.honest,
    hsound.own, hsound.apart⟩
  · intro path record hrecord hrunning
    obtain ⟨other, hother, hid, hbegun⟩ := hsound.running path record hrecord hrunning
    exact ⟨other, hkeeps hother (Upload.live_of_begun hbegun), hid, hbegun⟩
  · intro path record hrecord hpaused
    refine (hsound.paused path record hrecord hpaused).imp_right (Or.imp_left ?_)
    rintro ⟨other, hother, hid, hgap⟩
    exact ⟨other, hkeeps hother (by rw [Upload.live, hgap]), hid, hgap⟩
  · intro place other hother hlive
    have hclear := hsound.clear place other ((hsame place other hlive).mp hother) hlive
    exact ⟨fun later third hlater hthird hthirdLive ↦
      hclear.uploads later third hlater ((hsame later third hthirdLive).mp hthird) hthirdLive, hclear.stops⟩
  · exact fun other hother hlive ↦ hsound.resumed other (hold hother hlive) hlive
  · exact fun other hother hlive ↦ hsound.valid other (hold hother hlive) hlive
  · exact fun other hother hlive ↦ hsound.rows other (hold hother hlive) hlive

theorem Sound.dead {number : Nat} {upload moved : Upload} (hupload : state.uploads[number]? = some upload)
    (hlive : upload.live = false) (hmoved : moved.live = false) :
    Sound { state with uploads := state.uploads.set number moved } := by
  apply hsound.of_live
  intro place other hotherLive
  constructor
  · intro hother
    rcases getElem?_set_cases hupload hother with ⟨-, rfl⟩ | ⟨-, hold⟩
    · simp [hmoved] at hotherLive
    · exact hold
  · intro hother
    have hne : number ≠ place := by
      rintro rfl
      obtain rfl := Option.some.inj (hupload.symm.trans hother)
      simp [hlive] at hotherLive
    rwa [getElem?_set_ne hne]

theorem Sound.request {new : Upload} (hidle : new.live = false) :
    Sound { state with uploads := state.uploads ++ [new] } := by
  apply hsound.of_live
  intro place other hlive
  constructor
  · intro hother
    rcases getElem?_concat_cases hother with hold | ⟨-, rfl⟩
    · exact hold
    · simp [hidle] at hlive
  · intro hother
    rwa [getElem?_append_left (List.getElem?_eq_some_iff.mp hother).1]

end Sound

end DhcpServer.Files.UploadRows
