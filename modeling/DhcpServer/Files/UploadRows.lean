import DhcpServer.Core.JobRegistry
import DhcpServer.Files.FileManager
import DhcpServer.Files.Uploads

/-!
# The rows of the uploads

The upload requests of all files, each a task of its own, and the stops of the scheduler page for their
rows. They share the registry, the one record of a paused upload and the parts on the volumes; every call
of the registry or of the record and every access to a part is a step, and the steps of all of them come
in any order. A part is known by its size. What is written to a part that has been removed is lost.
-/

namespace DhcpServer.Files.UploadRows

open Library Core.JobRegistry Storage.PathUtil

abbrev File := Bytes × List Bytes

/-- The file that a path stands for, where the policy allows the path. -/
def fileOf (volume path : Bytes) : Option File :=
  (FileManager.absolute path).map fun names ↦ (volume, names)

def uploadPrefix : Bytes := ascii "upload:"

def uploadJobId (path : Bytes) : Bytes := uploadPrefix ++ path

structure PausedUpload where
  id : Bytes := []
  volume : Bytes := []
  path : Bytes := []

namespace PausedUpload

def forget (paused : PausedUpload) (jobId : Bytes) : PausedUpload :=
  if paused.id = jobId then {} else paused

def file (paused : PausedUpload) : Option File := fileOf paused.volume paused.path

end PausedUpload

inductive Stage
  /-- `openWrite` up to the check of the numbers and of the space -/
  | checking
  | opening
  | beginning
  /-- the record of a pause goes, as the upload has started again -/
  | forgetting
  /-- so many bytes of the body are still to come -/
  | receiving (left : Nat)
  | looking (left : Nat)
  | reporting (left : Nat)
  /-- the loop is over, and no stop has been seen -/
  | judging (ok : Bool)
  | aborting (state : JobState)
  | keeping
  | pausing
  | remembering
  | committing
  | finishing (state : JobState)
  /-- the file is published, and the record of a pause goes -/
  | forgettingDone
  | ended
deriving DecidableEq

structure Upload where
  volume : Bytes
  path : Bytes
  offset : Nat := 0
  /-- 0 where the client sends none -/
  total : Nat := 0
  chunk : Nat
  stage : Stage := .checking
  range : UploadRange := {}
  written : Nat := 0
  reported : Nat := 0

structure Chance where
  now : Nat := 0
  holds : Bool := true
  /-- how many bytes of the body come in, if any -/
  count : Nat := 0

structure Shared where
  registry : Registry := .empty
  paused : PausedUpload := {}
  /-- the sizes of the parts that are there -/
  parts : File → Option Nat := fun _ ↦ none
  /-- the file of the upload that has begun the row last -/
  rowFile : Bytes → Option File := fun _ ↦ none
  /-- an upload has used the row of another file -/
  mixed : Bool := false
  /-- a stop has removed the part of an upload other than that of its row, or one that is being written -/
  stray : Bool := false

def Shared.setPart (shared : Shared) (file : Option File) (change : Option Nat → Option Nat) : Shared :=
  match file with
  | none => shared
  | some file => { shared with parts := Function.update shared.parts file (change (shared.parts file)) }

namespace Upload

def id (upload : Upload) : Bytes := uploadJobId upload.path

def file (upload : Upload) : Option File := fileOf upload.volume upload.path

def go (upload : Upload) (stage : Stage) : Upload := { upload with stage }

/-- The row that the upload is about to use is not that of another file. -/
def touch (shared : Shared) (upload : Upload) : Shared :=
  { shared with
    mixed := shared.mixed || (shared.registry.contains upload.id && shared.rowFile upload.id != upload.file) }

/-- `openWrite` up to the opening of the part; `allowed` stands for a volume that is mounted and has the
space, and a target that is no directory. -/
def check (shared : Shared) (upload : Upload) (allowed : Bool) : Option UploadRange :=
  match upload.file with
  | none => none
  | some file =>
    if file.2 = [] ∨ allowed = false then none
    else
      (UploadRange.check ((shared.parts file).getD 0) upload.offset upload.chunk (upload.total ≠ 0)
        upload.total).toOption

def beginRow (shared : Shared) (upload : Upload) (now : Nat) : Shared :=
  let begun := shared.registry.begin upload.id (ascii "jobs.upload") upload.path
    (UInt32.ofNat upload.range.total) .bytes 0 now
  if begun.2 then
    { touch shared upload with
      registry := begun.1
      rowFile := Function.update shared.rowFile upload.id upload.file }
  else shared

def advance (shared : Shared) (upload : Upload) (chance : Chance) : Shared × Upload :=
  match upload.stage with
  | .checking =>
    match upload.check shared chance.holds with
    | none => (shared, upload.go .ended)
    | some range => (shared, { upload with stage := .opening, range })
  | .opening =>
    if chance.holds then
      (shared.setPart upload.file fun size ↦ some (if 0 < upload.range.offset then size.getD 0 else 0),
        { upload with stage := .beginning, written := upload.range.offset })
    else (shared, upload.go .ended)
  | .beginning => (upload.beginRow shared chance.now, upload.go .forgetting)
  | .forgetting =>
    ({ shared with paused := shared.paused.forget upload.id }, upload.go (.receiving upload.chunk))
  | .receiving left =>
    if left = 0 then (shared, upload.go (.judging true))
    else if chance.count = 0 then (shared, upload.go (.judging false))
    else
      let got := min chance.count left
      let grown := shared.setPart upload.file fun size ↦ size.map (· + got)
      if chance.holds then
        (grown, { upload with stage := .looking (left - got), written := upload.written + got })
      else (grown, upload.go (.judging false))
  | .looking left =>
    (upload.touch shared, upload.go (if shared.registry.cancelRequested upload.id then .aborting .cancelled
        else if 64 * 1024 ≤ upload.written - upload.reported then .reporting left
        else .receiving left))
  | .reporting left =>
    ({ upload.touch shared with
        registry := shared.registry.progress upload.id (UInt32.ofNat upload.written) 0 upload.path },
      { upload with stage := .receiving left, reported := upload.written })
  | .judging ok =>
    (shared, upload.go (if ok && upload.range.completes then .committing
      else if upload.range.resumable then .keeping
      else .aborting .failed))
  | .aborting state =>
    (if chance.holds then shared.setPart upload.file fun _ ↦ none else shared, upload.go (.finishing state))
  | .keeping => (shared, upload.go .pausing)
  | .pausing =>
    ({ upload.touch shared with registry := shared.registry.pause upload.id upload.path 0 },
      upload.go .remembering)
  | .remembering =>
    ({ shared with paused := ⟨upload.id, upload.volume, upload.path⟩ }, upload.go .ended)
  | .committing =>
    if chance.holds ∧ (upload.file.bind shared.parts).isSome then
      (shared.setPart upload.file fun _ ↦ none, upload.go (.finishing .done))
    else (shared, upload.go (.aborting .failed))
  | .finishing state =>
    let detail := if state = .done then (normalize upload.path).getD upload.path else upload.path
    ({ upload.touch shared with registry := shared.registry.finish upload.id state detail chance.now },
      upload.go (if state = .done then .forgettingDone else .ended))
  | .forgettingDone => ({ shared with paused := shared.paused.forget upload.id }, upload.go .ended)
  | .ended => (shared, upload)

def live (upload : Upload) : Bool :=
  match upload.stage with
  | .checking | .ended => false
  | _ => true

def writes (upload : Upload) : Bool :=
  match upload.stage with
  | .beginning | .forgetting | .receiving _ | .looking _ | .reporting _ | .judging _ | .aborting _
  | .keeping | .committing => true
  | .checking | .opening | .pausing | .remembering | .finishing _ | .forgettingDone | .ended => false

end Upload

inductive StopStage
  /-- the row has been found -/
  | requesting
  | taking
  /-- the record of the paused upload has been taken -/
  | discarding (volume path : Bytes)
  | finishing (path : Bytes)
  | ended

structure Stop where
  id : Bytes
  stage : StopStage := .requesting
  /-- the file of the row when the stop was accepted -/
  target : Option File := none
  /-- the stop has taken a record; the part has been removed; the row is gone -/
  took : Bool := false
  removed : Bool := false
  ended : Bool := false

namespace Stop

def go (stop : Stop) (stage : StopStage) : Stop := { stop with stage }

/-- The removal is one of the part of another file, or of a part that is open. -/
def Strays (shared : Shared) (uploads : List Upload) (stop : Stop) (file : Option File) : Prop :=
  (file.bind shared.parts).isSome = true ∧
    (file ≠ stop.target ∨ ∃ upload ∈ uploads, upload.writes = true ∧ upload.file = file)

instance (shared : Shared) (uploads : List Upload) (stop : Stop) (file : Option File) :
    Decidable (stop.Strays shared uploads file) :=
  inferInstanceAs (Decidable (_ ∧ _))

def advance (shared : Shared) (uploads : List Upload) (stop : Stop) (chance : Chance) : Shared × Stop :=
  match stop.stage with
  | .requesting =>
    let asked := shared.registry.requestCancel stop.id
    if asked.2 then
      ({ shared with registry := asked.1 },
        { stop with stage := .taking, target := shared.rowFile stop.id })
    else (shared, stop.go .ended)
  | .taking =>
    let paused := shared.paused
    if paused.id = [] ∨ paused.id ≠ stop.id then (shared, stop.go .ended)
    else
      ({ shared with paused := {} },
        { stop with stage := .discarding paused.volume paused.path, took := true })
  | .discarding volume path =>
    let file := fileOf volume path
    let left := if chance.holds then shared.setPart file fun _ ↦ none else shared
    ({ left with
        stray := shared.stray || (chance.holds && decide (stop.Strays shared uploads file)) },
      { stop with stage := .finishing path, removed := (stop.target.bind left.parts).isNone })
  | .finishing path =>
    let registry := shared.registry.finish stop.id .cancelled path chance.now
    ({ shared with registry }, { stop with stage := .ended, ended := !registry.contains stop.id })
  | .ended => (shared, stop)

/-- The stop has taken the record of a paused upload and is dropping it. -/
def drops (stop : Stop) : Bool :=
  match stop.stage with
  | .discarding _ _ | .finishing _ => true
  | .requesting | .taking | .ended => false

end Stop

structure State where
  shared : Shared := {}
  uploads : List Upload := []
  stops : List Stop := []

inductive Event
  /-- an upload request has come in, and has a task -/
  | upload (volume path : Bytes) (offset total chunk : Nat)
  | uploadNext (number : Nat) (chance : Chance)
  /-- a stop for the row of an upload has come in and looks for the row -/
  | stop (path : Bytes)
  | stopNext (number : Nat) (chance : Chance)
  /-- a call for an operation that is no upload -/
  | call (call : Call)

def step (state : State) : Event → Option State
  | .upload volume path offset total chunk =>
    some { state with uploads := state.uploads ++ [{ volume, path, offset, total, chunk }] }
  | .uploadNext number chance =>
    match state.uploads[number]? with
    | none => none
    | some upload =>
      let (shared, moved) := upload.advance state.shared chance
      some { state with shared, uploads := state.uploads.set number moved }
  | .stop path =>
    let id := uploadJobId path
    let stage := if state.shared.registry.contains id then .requesting else .ended
    some { state with stops := state.stops ++ [{ id, stage }] }
  | .stopNext number chance =>
    match state.stops[number]? with
    | none => none
    | some stop =>
      let (shared, moved) := stop.advance state.shared state.uploads chance
      some { state with shared, stops := state.stops.set number moved }
  | .call call =>
    if uploadPrefix <+: call.id then none
    else
      some { state with
        shared := { state.shared with registry := call.apply state.shared.registry } }

def Step (state : State) (event : Event) (state' : State) : Prop := step state event = some state'

/-- A stop that comes now and is not disturbed removes the row and the part of its upload. -/
def Droppable (state : State) (path : Bytes) : Prop :=
  ∃ file state', state.shared.rowFile (uploadJobId path) = some file ∧
    steps step state (.stop path :: List.replicate 4 (.stopNext state.stops.length {})) = some state' ∧
    state'.shared.registry.recordOf (uploadJobId path) = none ∧ state'.shared.parts file = none

structure Safe (state : State) : Prop where
  /-- A paused upload can be dropped, or can be as soon as its task remembers it, or a stop is dropping it. -/
  droppable : ∀ path record, state.shared.registry.recordOf (uploadJobId path) = some record →
    record.job.state = .paused →
    Droppable state path ∨
      (∃ number upload state', state.uploads[number]? = some upload ∧ upload.id = uploadJobId path ∧
        upload.stage = .remembering ∧ Step state (.uploadNext number {}) state' ∧ Droppable state' path) ∨
      ∃ stop ∈ state.stops, stop.id = uploadJobId path ∧ stop.drops = true
  dropped : ∀ stop ∈ state.stops, stop.took = true → stop.stage = .ended →
    stop.removed = true ∧ stop.ended = true
  own : state.shared.stray = false
  apart : state.shared.mixed = false

/-- No other upload of the row or of the file is under way or is being dropped, and the one that is
remembered, if it has the row or the file, has both. -/
def Upload.Apart (state : State) (upload : Upload) : Prop :=
  (∀ other ∈ state.uploads, other.live = true → other.id ≠ upload.id ∧ other.file ≠ upload.file) ∧
    (∀ stop ∈ state.stops, stop.drops = true → stop.id ≠ upload.id ∧ stop.target ≠ upload.file) ∧
    (state.shared.paused.id ≠ [] →
      (state.shared.paused.id = upload.id ↔ state.shared.paused.file = upload.file))

instance (state : State) (upload : Upload) : Decidable (upload.Apart state) :=
  @instDecidableAnd _ _ (inferInstanceAs (Decidable (∀ other ∈ state.uploads, _)))
    (@instDecidableAnd _ _ (inferInstanceAs (Decidable (∀ stop ∈ state.stops, _)))
      (inferInstanceAs (Decidable (_ → _))))

/-- An upload is accepted apart from the others, and is remembered when no other one is. -/
def Stage.Orderly (state : State) (chance : Chance) (upload : Upload) : Stage → Prop
  | .checking => (upload.check state.shared chance.holds).isSome = true → upload.Apart state
  | .remembering => state.shared.paused.id = []
  | _ => True

/-- A stop takes the record of the upload for whose row it was accepted, and not while this upload is
under way again; the volume does not refuse the removal. -/
def StopStage.Orderly (state : State) (chance : Chance) (stop : Stop) : StopStage → Prop
  | .taking => state.shared.paused.id = stop.id → state.shared.paused.file = stop.target ∧
    ∀ upload ∈ state.uploads, upload.live = true → upload.id ≠ stop.id
  | .discarding _ _ => chance.holds = true
  | _ => True

def Orderly (state : State) : Event → Prop
  | .uploadNext number chance =>
    ∀ upload ∈ state.uploads[number]?, upload.stage.Orderly state chance upload
  | .stopNext number chance => ∀ stop ∈ state.stops[number]?, stop.stage.Orderly state chance stop
  | .upload _ _ _ _ _ | .stop _ | .call _ => True

instance (state : State) (chance : Chance) (upload : Upload) :
    (stage : Stage) → Decidable (stage.Orderly state chance upload)
  | .checking => inferInstanceAs (Decidable (_ → _))
  | .remembering => inferInstanceAs (Decidable (_ = _))
  | .opening | .beginning | .forgetting | .receiving _ | .looking _ | .reporting _ | .judging _
  | .aborting _ | .keeping | .pausing | .committing | .finishing _ | .forgettingDone | .ended =>
    inferInstanceAs (Decidable True)

instance (state : State) (chance : Chance) (stop : Stop) :
    (stage : StopStage) → Decidable (stage.Orderly state chance stop)
  | .taking => inferInstanceAs (Decidable (_ → _))
  | .discarding _ _ => inferInstanceAs (Decidable (_ = _))
  | .requesting | .finishing _ | .ended => inferInstanceAs (Decidable True)

instance (state : State) : (event : Event) → Decidable (Orderly state event)
  | .uploadNext number _ => inferInstanceAs (Decidable (∀ upload ∈ state.uploads[number]?, _))
  | .stopNext number _ => inferInstanceAs (Decidable (∀ stop ∈ state.stops[number]?, _))
  | .upload _ _ _ _ _ | .stop _ | .call _ => inferInstanceAs (Decidable True)

end DhcpServer.Files.UploadRows
