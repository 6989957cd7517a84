import DhcpServer.Files.FileManager
import DhcpServer.Library.Worklist

/-!
# The transfer engine

`TransferEngine::run` with everything it does: the check of a request, the move by renaming on one
volume, and else the measuring walk and the copy of each entry, which a move deletes afterwards. An
`Environment` decides how every call of the volumes goes and when the operator asks to stop. The walks
run on fuel; a run that ends does not depend on it.
-/

namespace DhcpServer.Files.TransferEngine

open Library Storage.PathUtil List FileManager

/-! ## Data -/

inductive TransferOp
  | copy
  | move
deriving DecidableEq

inductive TransferConflict
  | ask
  | overwrite
  | skip
deriving DecidableEq

inductive TransferPhase
  | idle
  | measuring
  | copying
  | done
deriving DecidableEq

structure TransferRequest where
  op : TransferOp := .copy
  conflict : TransferConflict := .ask
  srcVolume : Bytes
  paths : List Bytes
  dstVolume : Bytes
  dstPath : Bytes

structure TransferReport where
  phase : TransferPhase := .idle
  busy : Bool := false
  finished : Bool := false
  cancelled : Bool := false
  instant : Bool := false
  op : TransferOp := .copy
  srcVolume : Bytes := []
  dstVolume : Bytes := []
  dstPath : Bytes := []
  current : Bytes := []
  doneBytes : Nat := 0
  totalBytes : Nat := 0
  neededBytes : Nat := 0
  freeBytes : Nat := 0
  filesDone : Nat := 0
  filesTotal : Nat := 0
  dirsDone : Nat := 0
  dirsTotal : Nat := 0
  skipped : Nat := 0
  failed : Nat := 0
  deleted : Nat := 0
  error : Bytes := []
  errorPath : Bytes := []
deriving DecidableEq

def kFileChunk : Nat := 4096
def kFreeSpaceReserve : Nat := 4096

structure DirPair where
  src : Bytes
  dst : Bytes
deriving DecidableEq

structure Measure where
  bytes : Nat := 0
  files : Nat := 0
  dirs : Nat := 0

/-- What the engine cannot know, at every moment of a run. -/
structure Environment where
  fate : Nat → Fate := fun _ ↦ {}
  /-- `transferCancelRequested` -/
  stop : Nat → Bool := fun _ ↦ false
  /-- `freeBytes` of the destination -/
  free : Nat → Nat

/-- An entry that the copying walk comes to, with the volumes as they are then. -/
structure Encounter where
  pair : DirPair
  entry : FileEntry
  volumes : Bytes → Tree

structure Session where
  volumes : Bytes → Tree
  clock : Nat := 0
  detail : Bytes := []
  report : TransferReport := {}
  /-- the directories each walk of `copyEntry` has scanned, the last walk first -/
  walks : List (List Bytes) := []
  /-- the files and directories made at the destination, each with its source -/
  copies : List DirPair := []
  /-- the entries visited after a request to stop has been seen -/
  lateVisits : List Encounter := []
  /-- what has been made at the destination or taken from the source after that -/
  lateChanges : List Bytes := []

namespace Session

def tick (session : Session) : Session := { session with clock := session.clock + 1 }

def setVolume (session : Session) (volume : Bytes) (tree : Tree) : Session :=
  { session with volumes := Function.update session.volumes volume tree }

/-- A failure that writes to `detail`. -/
def note (session : Session) (failure : Failure) : Session :=
  { session with detail := failure.detail.getD session.detail }

def fail (session : Session) (path : Bytes) (status : FileStatus) (why : Bytes) : Session :=
  let report := { session.report with failed := session.report.failed + 1 }
  { session with
    report :=
      if report.error = [] then
        { report with
          error := messageFor status ++ if why = [] then [] else ascii ": " ++ why
          errorPath := path }
      else report }

def current (session : Session) (path : Bytes) : Session :=
  { session with report := { session.report with current := path } }

def received (session : Session) (count : Nat) : Session :=
  { session with report := { session.report with doneBytes := session.report.doneBytes + count } }

def fileDone (session : Session) : Session :=
  { session with report := { session.report with filesDone := session.report.filesDone + 1 } }

def dirDone (session : Session) : Session :=
  { session with report := { session.report with dirsDone := session.report.dirsDone + 1 } }

def entryDeleted (session : Session) : Session :=
  { session with report := { session.report with deleted := session.report.deleted + 1 } }

def entrySkipped (session : Session) : Session :=
  { session with report := { session.report with skipped := session.report.skipped + 1 } }

def measured (session : Session) (measure : Measure) : Session :=
  { session with
    report := { session.report with
      totalBytes := session.report.totalBytes + measure.bytes
      filesTotal := session.report.filesTotal + measure.files
      dirsTotal := session.report.dirsTotal + measure.dirs } }

def compared (session : Session) (free : Nat) : Session :=
  { session with
    report := { session.report with neededBytes := session.report.totalBytes, freeBytes := free } }

def directed (session : Session) (dstDir : Bytes) : Session :=
  { session with report := { session.report with dstPath := dstDir } }

def instantly (session : Session) : Session :=
  { session with report := { session.report with instant := true } }

def copying (session : Session) : Session :=
  { session with report := { session.report with phase := .copying } }

def copied (session : Session) (pair : DirPair) : Session :=
  { session with
    copies := session.copies ++ [pair]
    lateChanges :=
      if session.report.cancelled then session.lateChanges ++ [pair.dst] else session.lateChanges }

def taken (session : Session) (path : Bytes) : Session :=
  { session with
    lateChanges := if session.report.cancelled then session.lateChanges ++ [path] else session.lateChanges }

def visiting (session : Session) (pair : DirPair) (entry : FileEntry) : Session :=
  { session with
    lateVisits :=
      if session.report.cancelled then session.lateVisits ++ [⟨pair, entry, session.volumes⟩]
      else session.lateVisits }

def scanned (session : Session) (dir : Bytes) : Session :=
  { session with
    walks :=
      match session.walks with
      | [] => [[dir]]
      | walk :: walks => (walk ++ [dir]) :: walks }

def finish (session : Session) : Session :=
  { session with
    report := { session.report with busy := false, finished := true, phase := .done, current := [] } }

end Session

def joinRel (dir name : Bytes) : Bytes := if dir = [slash] then slash :: name else dir ++ slash :: name

section Engine

variable (env : Environment) (request : TransferRequest)

namespace Session

variable (session : Session)

def fate : Fate := env.fate session.clock

def source : Tree := session.volumes request.srcVolume

def destination : Tree := session.volumes request.dstVolume

def cancelRequested : Bool × Session :=
  if env.stop session.clock then
    (true, { session.tick with report := { session.report with cancelled := true } })
  else (false, session.tick)

end Session

def sizes : List FileEntry → Nat
  | [] => 0
  | file :: files => file.size + sizes files

def measureDir (progress : Measure × Session) (dir : Bytes) :
    (Except Failure Measure × Session) ⊕ (Measure × Session) × List Bytes :=
  let measure := progress.1
  let session := progress.2.current dir
  match scan (session.fate env) (session.source request) dir with
  | .error failure => .inl (.error failure, session.tick.note failure)
  | .ok entries =>
    let dirs := entries.filter fun entry ↦ entry.isDir
    let files := entries.filter fun entry ↦ !entry.isDir
    .inr (({ bytes := measure.bytes + sizes files
             files := measure.files + files.length
             dirs := measure.dirs + dirs.length }, session.tick),
      dirs.map fun entry ↦ joinRel dir entry.name)

def measureEntry (fuel : Nat) (top : Bytes) (session : Session) :
    Option (Except Failure Measure × Session) :=
  match stat (session.fate env) (session.source request) top with
  | .error failure => some (.error failure, session.tick.note failure)
  | .ok entry =>
    if entry.isDir then
      worklist (measureDir env request) (fun progress ↦ (.ok progress.1, progress.2)) fuel [top]
        ({ dirs := 1 }, session.tick)
    else some (.ok { files := 1, bytes := entry.size }, session.tick)

/-! ## Copying -/

def windowsFrom : Nat → Bytes → List Bytes
  | 0, _ => []
  | _ + 1, [] => []
  | rounds + 1, content => content.take kFileChunk :: windowsFrom rounds (content.drop kFileChunk)

/-- A file is read in windows; every read but the last fills its window. -/
def windows (content : Bytes) : List Bytes := windowsFrom content.length content

theorem flatten_windowsFrom {rounds : Nat} {content : Bytes} (hrounds : content.length ≤ rounds) :
    (windowsFrom rounds content).flatten = content := by
  induction rounds generalizing content with
  | zero =>
    have hnil : content = [] := length_eq_zero_iff.mp (Nat.le_zero.mp hrounds)
    rw [hnil]
    rfl
  | succ rounds ih =>
    cases content with
    | nil => rfl
    | cons byte rest =>
      have hchunk : 0 < kFileChunk := by decide
      have hrest : ((byte :: rest).drop kFileChunk).length ≤ rounds := by
        rw [length_drop]
        rw [length_cons] at hrounds ⊢
        omega
      rw [windowsFrom, flatten_cons, ih hrest, take_append_drop]
      rintro ⟨⟩

theorem flatten_windows (content : Bytes) : (windows content).flatten = content :=
  flatten_windowsFrom le_rfl

/-- The loop of `copyFile`, one window of the source after the other. -/
def copyChunks (sink : FileSink) (src : Bytes) : List Bytes → Session → Bool × Session
  | [], session =>
    -- the read at the end of the file, which may fail as well
    if (session.fate env).refused.isSome then
      let tree := sink.abort (session.tick.fate env) (session.destination request)
      (false, (session.tick.tick.setVolume request.dstVolume tree).fail src .ioError
        (ascii "cannot read the source file"))
    else
      let flush := session.tick
      let unlink := flush.tick
      let rename := unlink.tick
      let abort := rename.tick
      let result := sink.commit (flush.fate env) (unlink.fate env)
        (rename.fate env) (abort.fate env) (session.destination request)
      let session := abort.tick.setVolume request.dstVolume result.2
      if result.1 then (true, session.fileDone)
      else (false, session.fail src .ioError (ascii "cannot publish the destination file"))
  | chunk :: chunks, session =>
    if (session.fate env).refused.isSome then
      let tree := sink.abort (session.tick.fate env) (session.destination request)
      (false, (session.tick.tick.setVolume request.dstVolume tree).fail src .ioError
        (ascii "cannot read the source file"))
    else
      let session := session.tick
      match sink.write (session.fate env) (session.destination request) chunk with
      | none =>
        let tree := sink.abort (session.tick.fate env) (session.destination request)
        (false, (session.tick.tick.setVolume request.dstVolume tree).fail src .ioError
          (ascii "cannot write to the destination"))
      | some tree =>
        let session := (session.tick.setVolume request.dstVolume tree).received chunk.length
        let answer := session.cancelRequested env
        if answer.1 then
          let tree := sink.abort (answer.2.fate env) (answer.2.destination request)
          (false, answer.2.tick.setVolume request.dstVolume tree)
        else copyChunks sink src chunks answer.2

def tooLarge (session : Session) (src : Bytes) : Bool :=
  match stat (session.fate env) (session.source request) src with
  | .error _ => false
  | .ok entry =>
    !entry.isDir && env.free session.clock < entry.size + kFreeSpaceReserve

/-- What the `stat` of the same question leaves. -/
def statNoted (session : Session) (src : Bytes) : Session :=
  match stat (session.fate env) (session.source request) src with
  | .error failure => session.tick.note failure
  | .ok _ => session.tick

def copyFile (src dst : Bytes) (session : Session) : Bool × Session :=
  if tooLarge env request session src then
    (false, session.tick.fail src .noSpace (ascii "not enough free space on the destination"))
  else
    let session := statNoted env request session src
    match openRead (session.fate env) (session.source request) src with
    | .error failure =>
      let session := session.tick.note failure
      (false, session.fail src failure.status session.detail)
    | .ok content =>
      let session := session.tick
      match createWriter (session.fate env) (session.destination request) dst with
      | .error failure =>
        let session := session.tick.note failure
        (false, session.fail src failure.status session.detail)
      | .ok (sink, tree) =>
        let session := session.tick.setVolume request.dstVolume tree
        let answer := copyChunks env request sink src (windows content) session
        (answer.1, if answer.1 then answer.2.copied ⟨src, dst⟩ else answer.2)

/-- The visitor of a directory: its `ok_`, and what it has put in the queue. -/
structure Visit where
  session : Session
  ok : Bool := true
  found : List DirPair := []

def visitEntry (pair : DirPair) (visit : Visit) (entry : FileEntry) : Visit :=
  let session := visit.session.visiting pair entry
  match normalizeChild pair.dst entry.name with
  | none =>
    { visit with
      session := session.fail (joinRel pair.src entry.name) .invalidPath
        (ascii "the name cannot be used on the destination")
      ok := false }
  | some dstChild =>
    let srcChild := joinRel pair.src entry.name
    if entry.isDir then
      let enter (session : Session) : Visit :=
        { visit with session := session.dirDone, found := visit.found ++ [⟨srcChild, dstChild⟩] }
      match mkdir (session.fate env)
        (session.destination request) dstChild with
      | .ok tree =>
        enter ((session.tick.setVolume request.dstVolume tree).copied ⟨srcChild, dstChild⟩)
      | .error failure =>
        if failure.status = .alreadyExists then enter session.tick
        else
          { visit with
            session := session.tick.fail srcChild failure.status session.detail
            ok := false }
    else
      let answer := copyFile env request srcChild dstChild (session.current srcChild)
      { visit with session := answer.2, ok := visit.ok && answer.1 }

def copyDir (progress : Bool × Session) (pair : DirPair) :
    (Bool × Session) ⊕ (Bool × Session) × List DirPair :=
  let session := progress.2
  if session.report.cancelled then .inl (false, session)
  else
    let walked := session.tick.scanned pair.src
    match scan (session.fate env) (session.source request) pair.src with
    | .error failure =>
      let session := walked.note failure
      .inr ((false, session.fail pair.src failure.status session.detail), [])
    | .ok entries =>
      let visit := entries.foldl (visitEntry env request pair) { session := walked }
      .inr ((progress.1 && visit.ok, visit.session), visit.found)

def copyEntry (fuel : Nat) (srcTop dstTop : Bytes) (srcIsDir : Bool) (session : Session) :
    Option (Bool × Session) :=
  if srcIsDir then
    worklist (copyDir env request) id fuel [⟨srcTop, dstTop⟩]
      (true, { session with walks := [] :: session.walks })
  else some (copyFile env request srcTop dstTop (session.current srcTop))

def renameEntry (src target : Bytes) (entry : FileEntry) (session : Session) : Session :=
  match rename (session.fate env) (session.source request) src target with
  | .error failure =>
    let session := session.tick.note failure
    session.fail src failure.status session.detail
  | .ok tree =>
    let session := ((session.tick.setVolume request.srcVolume tree).taken src).entryDeleted
    if entry.isDir then session.dirDone else session.fileDone

def renamePath (dstDir raw : Bytes) (session : Session) : Session :=
  match normalize raw with
  | none => session
  | some src =>
    match normalizeChild dstDir (basename src) with
    | none => session.fail src .invalidPath (ascii "the destination name is not usable")
    | some target =>
      match stat (session.fate env) (session.source request) target with
      | .error _ => renameEntry env request src target {} session.tick
      | .ok entry =>
        let session := session.tick
        if entry.isDir then
          session.fail src .alreadyExists
            (ascii "the destination already holds a directory with that name")
        else if request.conflict = .skip then session.entrySkipped
        else
          let result := remove (session.fate env) (session.source request) target false
          let left := session.tick.setVolume request.srcVolume result.2
          match result.1 with
          | .error failure =>
            let session := left.note failure
            session.fail src failure.status session.detail
          | .ok _ => renameEntry env request src target entry left

def runInstant (dstDir : Bytes) : List Bytes → Session → Session
  | [], session => session
  | raw :: paths, session =>
    let answer := session.cancelRequested env
    if answer.1 then answer.2
    else runInstant dstDir paths (renamePath env request dstDir raw answer.2)

/-- The loop of `validate`. `none` is an accepted list. -/
def validatePaths (dstDir : Bytes) : List Bytes → Session → Option FileStatus × Session
  | [], session => (none, session)
  | raw :: paths, session =>
    match normalize raw with
    | none =>
      (some .invalidPath, { session with detail := ascii "the path cannot be used by the API: " ++ raw })
    | some path =>
      if path = [slash] then
        (some .invalidPath, { session with detail := ascii "a whole volume cannot be transferred" })
      else
        match stat (session.fate env) (session.source request) path with
        | .error failure => (some failure.status, session.tick.note failure)
        | .ok _ =>
          if request.srcVolume = request.dstVolume ∧ dstDir = parent path then
            (some .invalidPath,
              { session.tick with detail := ascii "the entry is already in that directory" })
          else if request.srcVolume = request.dstVolume ∧ path ++ [slash] <+: dstDir then
            (some .invalidPath,
              { session.tick with detail := ascii "the destination is inside the source" })
          else validatePaths dstDir paths session.tick

def validate (session : Session) : Option FileStatus × Session :=
  if request.paths = [] then
    (some .invalidPath, { session with detail := ascii "no entries were selected" })
  else if request.srcVolume = [] ∨ request.dstVolume = [] then
    (some .invalidPath, { session with detail := ascii "a volume is missing" })
  else
    match normalize request.dstPath with
    | none =>
      (some .invalidPath, { session with detail := ascii "the destination path is not valid" })
    | some dstDir =>
      let checked := validatePaths env request dstDir request.paths session
      let session := checked.2
      match checked.1 with
      | some status => (some status, session)
      | none =>
        match scan (session.fate env) (session.destination request) dstDir with
        | .ok _ => (none, session.tick)
        | .error failure =>
          let session := session.tick.note failure
          (some failure.status, if failure.status = .invalidPath ∧ session.detail = [] then
              { session with detail := ascii "the destination is not a directory" }
            else session)

/-! ## The run -/

def skipsMeasure (dstDir path : Bytes) (session : Session) : Bool :=
  match normalizeChild dstDir (basename path) with
  | none => false
  | some target =>
    request.conflict = .skip &&
      (stat (session.fate env) (session.destination request) target).isOk

def measurePath (fuel : Nat) (dstDir raw : Bytes) (session : Session) : Option Session :=
  match normalize raw with
  | none => some session
  | some path =>
    if skipsMeasure env request dstDir path session then some session.tick
    else
      (measureEntry env request fuel path session.tick).map fun answer ↦
        match answer.1 with
        | .error failure => answer.2.fail path failure.status answer.2.detail
        | .ok measure => answer.2.measured measure

def deleteSource (path : Bytes) (srcIsDir : Bool) (session : Session) : Session :=
  let result := remove (session.fate env) (session.source request) path srcIsDir
  let left := (session.tick.setVolume request.srcVolume result.2).taken path
  match result.1 with
  | .error failure =>
    let session := left.note failure
    session.fail path failure.status session.detail
  | .ok _ => left.entryDeleted

/-- A move deletes the source entry once its copy is complete. -/
def copyAndDelete (fuel : Nat) (path target : Bytes) (srcIsDir : Bool) (session : Session) :
    Option Session :=
  (copyEntry env request fuel path target srcIsDir session).map fun answer ↦
    if answer.2.report.cancelled then answer.2
    else if answer.1 ∧ request.op = .move then
      deleteSource env request path srcIsDir (answer.2.current path)
    else answer.2.current path

def transferTo (fuel : Nat) (path target : Bytes) (srcIsDir : Bool) (session : Session) : Option Session :=
  if srcIsDir then
    match mkdir (session.fate env) (session.destination request) target with
    | .ok tree =>
      let session := (session.tick.setVolume request.dstVolume tree).copied ⟨path, target⟩
      copyAndDelete env request fuel path target srcIsDir session.dirDone
    | .error failure =>
      if failure.status = .alreadyExists then
        copyAndDelete env request fuel path target srcIsDir session.tick
      else some (session.tick.fail path failure.status session.detail)
  else copyAndDelete env request fuel path target srcIsDir session

def transferPath (fuel : Nat) (dstDir raw : Bytes) (session : Session) : Option Session :=
  match normalize raw with
  | none => some session
  | some path =>
    match normalizeChild dstDir (basename path) with
    | none => some (session.fail path .invalidPath (ascii "the destination name is not usable"))
    | some target =>
      match stat (session.fate env) (session.source request) path with
      | .error failure =>
        let session := session.tick.note failure
        some (session.fail path .notFound session.detail)
      | .ok srcEntry =>
        let session := session.tick
        match stat (session.fate env) (session.destination request) target with
        | .error _ => transferTo env request fuel path target srcEntry.isDir session.tick
        | .ok dstEntry =>
          let session := session.tick
          if request.conflict = .skip then
            some session.entrySkipped
          else if srcEntry.isDir && !dstEntry.isDir then
            some (session.fail path .alreadyExists
              (ascii "the destination holds a file with that name"))
          else transferTo env request fuel path target srcEntry.isDir session

def measurePaths (fuel : Nat) (dstDir : Bytes) (session : Session) : Option Session :=
  request.paths.foldlM
    (fun session raw ↦ measurePath env request fuel dstDir raw session) session

def transferPaths (fuel : Nat) (dstDir : Bytes) (session : Session) : Option Session :=
  request.paths.foldlM
    (fun session raw ↦
      if session.report.cancelled then some session
      else transferPath env request fuel dstDir raw session)
    session

def measureAndCopy (fuel : Nat) (dstDir : Bytes) (session : Session) : Option Session :=
  (measurePaths env request fuel dstDir session).bind fun session ↦
    let free := env.free session.clock
    let session := session.tick.compared free
    if free < session.report.neededBytes + kFreeSpaceReserve then
      some (session.fail dstDir .noSpace (ascii "not enough free space on the destination"))
    else transferPaths env request fuel dstDir session.copying

def start (volumes : Bytes → Tree) : Session where
  volumes
  report :=
    { op := request.op
      srcVolume := request.srcVolume
      dstVolume := request.dstVolume
      dstPath := request.dstPath
      busy := true
      phase := .measuring }

def runAccepted (fuel : Nat) (dstDir : Bytes) (session : Session) : Option Session :=
  let session := session.directed dstDir
  if request.op = .move ∧ request.srcVolume = request.dstVolume then
    some (runInstant env request dstDir request.paths session.instantly).finish
  else (measureAndCopy env request fuel dstDir session).map Session.finish

def run (fuel : Nat) (volumes : Bytes → Tree) : Option Session :=
  let checked := validate env request (start request volumes)
  let session := checked.2
  match checked.1 with
  | some status => some (session.fail request.dstPath status session.detail).finish
  | none => runAccepted env request fuel ((normalize request.dstPath).getD [slash]) session

end Engine

end DhcpServer.Files.TransferEngine
