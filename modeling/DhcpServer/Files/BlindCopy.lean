import DhcpServer.Files.Outlines
import DhcpServer.Files.TransferEngine

/-!
# A copy does not look at contents

The walks of the engine on volumes that are alike do the same: they answer with the same report, and what
they leave is alike. The bytes of a file only go from its source to its copy.
-/

namespace DhcpServer.Files.TransferEngine

open Library Storage.PathUtil List FileManager

/-- Two sessions that differ in nothing but the bytes of files, apart from what is recorded for proofs. -/
structure Session.Alike (left right : Session) : Prop where
  volumes : ∀ volume, Files.Alike (left.volumes volume) (right.volumes volume)
  clock : left.clock = right.clock
  detail : left.detail = right.detail
  report : left.report = right.report

def Both {Answer : Type} (result result' : Answer × Session) : Prop :=
  result.1 = result'.1 ∧ result.2.Alike result'.2

variable {env : Environment} {request : TransferRequest} {left right : Session}

namespace Session.Alike

section

variable (halike : left.Alike right)
include halike

theorem fate : left.fate env = right.fate env := by
  rw [Session.fate, Session.fate, halike.clock]

theorem source (request : TransferRequest) : Files.Alike (left.source request) (right.source request) :=
  halike.volumes request.srcVolume

theorem destination (request : TransferRequest) :
    Files.Alike (left.destination request) (right.destination request) :=
  halike.volumes request.dstVolume

theorem tick : left.tick.Alike right.tick :=
  ⟨halike.volumes, congrArg (· + 1) halike.clock, halike.detail, halike.report⟩

theorem setVolume (volume : Bytes) {tree tree' : Tree}
    (htree : Files.Alike tree tree') : (left.setVolume volume tree).Alike (right.setVolume volume tree') := by
  refine ⟨fun other ↦ ?_, halike.clock, halike.detail, halike.report⟩
  dsimp only [Session.setVolume]
  rw [Function.update_apply, Function.update_apply]
  split_ifs
  · exact htree
  · exact halike.volumes other

theorem note (failure : Failure) : (left.note failure).Alike (right.note failure) :=
  ⟨halike.volumes, halike.clock, congrArg failure.detail.getD halike.detail, halike.report⟩

theorem reported (change : TransferReport → TransferReport) :
    { left with report := change left.report }.Alike { right with report := change right.report } :=
  ⟨halike.volumes, halike.clock, halike.detail, congrArg change halike.report⟩

theorem current (path : Bytes) : (left.current path).Alike (right.current path) :=
  halike.reported fun report ↦ { report with current := path }

theorem received (count : Nat) : (left.received count).Alike (right.received count) :=
  halike.reported fun report ↦ { report with doneBytes := report.doneBytes + count }

theorem fileDone : left.fileDone.Alike right.fileDone :=
  halike.reported fun report ↦ { report with filesDone := report.filesDone + 1 }

theorem dirDone : left.dirDone.Alike right.dirDone :=
  halike.reported fun report ↦ { report with dirsDone := report.dirsDone + 1 }

theorem entryDeleted : left.entryDeleted.Alike right.entryDeleted :=
  halike.reported fun report ↦ { report with deleted := report.deleted + 1 }

theorem entrySkipped : left.entrySkipped.Alike right.entrySkipped :=
  halike.reported fun report ↦ { report with skipped := report.skipped + 1 }

theorem fail (path : Bytes) (status : FileStatus) (why : Bytes) :
    (left.fail path status why).Alike (right.fail path status why) := by
  refine ⟨halike.volumes, halike.clock, halike.detail, ?_⟩
  rw [Session.fail, Session.fail, halike.report]

theorem failed (path : Bytes) (status : FileStatus) (failure : Failure) :
    ((left.note failure).fail path status (left.note failure).detail).Alike
      ((right.note failure).fail path status (right.note failure).detail) := by
  rw [(halike.note failure).detail]
  exact (halike.note failure).fail path status _

theorem copied (pair : DirPair) : (left.copied pair).Alike (right.copied pair) :=
  ⟨halike.volumes, halike.clock, halike.detail, halike.report⟩

theorem taken (path : Bytes) : (left.taken path).Alike (right.taken path) :=
  ⟨halike.volumes, halike.clock, halike.detail, halike.report⟩

theorem visiting (pair : DirPair) (entry : FileEntry) :
    (left.visiting pair entry).Alike (right.visiting pair entry) :=
  ⟨halike.volumes, halike.clock, halike.detail, halike.report⟩

theorem scanned (dir : Bytes) : (left.scanned dir).Alike (right.scanned dir) :=
  ⟨halike.volumes, halike.clock, halike.detail, halike.report⟩

theorem cancelRequested : Both (left.cancelRequested env) (right.cancelRequested env) := by
  rw [Session.cancelRequested, Session.cancelRequested, halike.clock]
  split_ifs
  · exact ⟨rfl, halike.tick.reported fun report ↦ { report with cancelled := true }⟩
  · exact ⟨rfl, halike.tick⟩

end

end Session.Alike

theorem measureDir_alike (halike : left.Alike right) (measure : Measure) (dir : Bytes) :
    Sum.LiftRel Both (fun next next' ↦ Both next.1 next'.1 ∧ next.2 = next'.2)
      (measureDir env request (measure, left) dir)
      (measureDir env request (measure, right) dir) := by
  obtain ⟨volumes, clock, detail, report, _, _, _, _⟩ := left
  obtain ⟨volumes', _, _, _, _, _, _, _⟩ := right
  obtain ⟨hvolumes, rfl, rfl, rfl⟩ := halike
  have hscan := scan_alike (hvolumes request.srcVolume) (env.fate clock) dir
  simp only [measureDir, Session.current, Session.fate, Session.source]
  dsimp only at hscan
  rw [hscan]
  split
  · exact .inl ⟨rfl, hvolumes, rfl, rfl, rfl⟩
  · exact .inr ⟨⟨rfl, hvolumes, rfl, rfl, rfl⟩, rfl⟩

theorem measureEntry_alike (halike : left.Alike right) (fuel : Nat) (top : Bytes) :
    Option.Rel Both (measureEntry env request fuel top left)
      (measureEntry env request fuel top right) := by
  obtain ⟨volumes, clock, detail, report, _, _, _, _⟩ := left
  obtain ⟨volumes', _, _, _, _, _, _, _⟩ := right
  obtain ⟨hvolumes, rfl, rfl, rfl⟩ := halike
  have hstat := stat_alike (hvolumes request.srcVolume) (env.fate clock) top
  simp only [measureEntry, Session.fate, Session.source, hstat]
  split
  · exact .some ⟨rfl, hvolumes, rfl, rfl, rfl⟩
  · split_ifs
    · refine Worklist.coupled Both Both ?_ ?_ fuel [top] ⟨rfl, hvolumes, rfl, rfl, rfl⟩
      · rintro dir ⟨measure, left⟩ ⟨_, right⟩ ⟨hmeasure, halike⟩
        obtain rfl : measure = _ := hmeasure
        exact measureDir_alike halike measure dir
      · rintro ⟨measure, left⟩ ⟨_, right⟩ ⟨hmeasure, halike⟩
        exact ⟨congrArg Except.ok hmeasure, halike⟩
    · exact .some ⟨rfl, hvolumes, rfl, rfl, rfl⟩

theorem windowsFrom_alike (rounds : Nat) {content content' : Bytes}
    (hlength : content.length = content'.length) :
    List.Forall₂ (fun chunk chunk' ↦ chunk.length = chunk'.length) (windowsFrom rounds content)
      (windowsFrom rounds content') := by
  induction rounds generalizing content content' with
  | zero =>
    rw [windowsFrom, windowsFrom]
    exact .nil
  | succ rounds ih =>
    cases content with
    | nil =>
      cases content' with
      | nil => exact .nil
      | cons byte rest => cases hlength
    | cons byte rest =>
      cases content' with
      | nil => cases hlength
      | cons byte' rest' =>
        rw [windowsFrom, windowsFrom]
        · refine .cons ?_ (ih ?_)
          · rw [length_take, length_take, hlength]
          · rw [length_drop, length_drop, hlength]
        · rintro ⟨⟩
        · rintro ⟨⟩

theorem windows_alike {content content' : Bytes} (hlength : content.length = content'.length) :
    List.Forall₂ (fun chunk chunk' ↦ chunk.length = chunk'.length) (windows content) (windows content') := by
  rw [windows, windows, hlength]
  exact windowsFrom_alike _ hlength

section

variable (halike : left.Alike right)
include halike

theorem copyChunks_alike (sink : FileSink) (src : Bytes)
    {chunks chunks' : List Bytes}
    (hchunks : List.Forall₂ (fun chunk chunk' ↦ chunk.length = chunk'.length) chunks chunks') :
    Both (copyChunks env request sink src chunks left)
      (copyChunks env request sink src chunks' right) := by
  induction hchunks generalizing left right with
  | nil =>
    rw [copyChunks, copyChunks, halike.fate]
    split_ifs
    · refine ⟨rfl, (halike.tick.tick.setVolume _ ?_).fail _ _ _⟩
      rw [halike.tick.fate]
      exact sink.abort_alike (halike.destination request) _
    · have hcommit := sink.commit_alike (halike.destination request)
        (right.tick.fate env) (right.tick.tick.fate env)
        (right.tick.tick.tick.fate env) (right.tick.tick.tick.tick.fate env)
      dsimp only
      rw [halike.tick.fate, halike.tick.tick.fate, halike.tick.tick.tick.fate,
        halike.tick.tick.tick.tick.fate, hcommit.1]
      have hleft := halike.tick.tick.tick.tick.tick.setVolume request.dstVolume hcommit.2
      split_ifs
      · exact ⟨rfl, hleft.fileDone⟩
      · exact ⟨rfl, hleft.fail _ _ _⟩
  | @cons chunk chunk' chunks chunks' hchunk hchunks ih =>
    rw [copyChunks, copyChunks, halike.fate]
    split_ifs
    · refine ⟨rfl, (halike.tick.tick.setVolume _ ?_).fail _ _ _⟩
      rw [halike.tick.fate]
      exact sink.abort_alike (halike.destination request) _
    · have hwritten := sink.write_alike (halike.tick.destination request)
        (right.tick.fate env) hchunk
      dsimp only
      rw [halike.tick.fate]
      generalize sink.write (right.tick.fate env) (left.tick.destination request) chunk = written,
        sink.write (right.tick.fate env) (right.tick.destination request) chunk' = written'
        at hwritten ⊢
      cases hwritten with
      | none =>
        refine ⟨rfl, (halike.tick.tick.tick.setVolume _ ?_).fail _ _ _⟩
        rw [halike.tick.tick.fate]
        exact sink.abort_alike (halike.tick.destination request) _
      | some hwritten =>
        have hanswer : Both (Session.cancelRequested env _) (Session.cancelRequested env _) :=
          ((halike.tick.tick.setVolume request.dstVolume hwritten).received chunk'.length).cancelRequested
        dsimp only
        rw [hchunk]
        obtain ⟨hstop, halike⟩ := hanswer
        rw [hstop]
        split_ifs
        · refine ⟨rfl, halike.tick.setVolume _ ?_⟩
          rw [halike.fate]
          exact sink.abort_alike (halike.destination request) _
        · exact ih halike

theorem tooLarge_alike (src : Bytes) :
    tooLarge env request left src = tooLarge env request right src := by
  rw [tooLarge, tooLarge, halike.fate, halike.clock, stat_alike (halike.source request)]

theorem statNoted_alike (src : Bytes) :
    (statNoted env request left src).Alike (statNoted env request right src) := by
  rw [statNoted, statNoted, halike.fate, stat_alike (halike.source request)]
  split
  · exact halike.tick.note _
  · exact halike.tick

theorem copyFile_alike (src dst : Bytes) :
    Both (copyFile env request src dst left) (copyFile env request src dst right) := by
  rw [copyFile, copyFile, tooLarge_alike halike]
  split_ifs
  · exact ⟨rfl, halike.tick.fail _ _ _⟩
  · have hnoted : (statNoted env request left src).Alike (statNoted env request right src) :=
      statNoted_alike halike src
    dsimp only
    generalize statNoted env request left src = left,
      statNoted env request right src = right at hnoted ⊢
    rw [hnoted.fate]
    have hread := openRead_alike (hnoted.source request) (right.fate env) src
    generalize openRead (right.fate env) (left.source request) src = read,
      openRead (right.fate env) (right.source request) src = read' at hread ⊢
    cases hread with
    | error failure => exact ⟨rfl, hnoted.tick.failed src failure.status failure⟩
    | @ok content content' hlength =>
      rw [hnoted.tick.fate]
      have hopened := createWriter_alike (hnoted.tick.destination request)
        (right.tick.fate env) dst
      generalize
        createWriter (right.tick.fate env) (left.tick.destination request) dst = opened,
        createWriter (right.tick.fate env) (right.tick.destination request) dst = opened'
        at hopened ⊢
      cases hopened with
      | error failure => exact ⟨rfl, hnoted.tick.tick.failed src failure.status failure⟩
      | @ok opened opened' hopened =>
        obtain ⟨sink, tree⟩ := opened
        obtain ⟨_, tree'⟩ := opened'
        obtain ⟨rfl, htree⟩ := hopened
        obtain ⟨hcomplete, halike⟩ :
            Both (copyChunks env request sink src _ _) (copyChunks env request sink src _ _) :=
          copyChunks_alike (hnoted.tick.tick.setVolume request.dstVolume htree) sink src (windows_alike hlength)
        refine ⟨hcomplete, ?_⟩
        dsimp only
        rw [hcomplete]
        split_ifs
        · exact halike.copied ⟨src, dst⟩
        · exact halike

end

structure Visit.Alike (visit visit' : Visit) : Prop where
  session : visit.session.Alike visit'.session
  ok : visit.ok = visit'.ok
  found : visit.found = visit'.found

theorem visitEntry_alike (pair : DirPair) {visit visit' : Visit} (hvisit : visit.Alike visit')
    (entry : FileEntry) :
    (visitEntry env request pair visit entry).Alike
      (visitEntry env request pair visit' entry) := by
  have hsession := hvisit.session.visiting pair entry
  unfold visitEntry
  cases normalizeChild pair.dst entry.name with
  | none => exact ⟨hsession.fail _ _ _, rfl, hvisit.found⟩
  | some dstChild =>
    dsimp only
    split_ifs with hdir
    · rw [hsession.fate]
      have hmade := mkdir_alike (hsession.destination request)
        ((visit'.session.visiting pair entry).fate env) dstChild
      generalize mkdir _ ((visit.session.visiting pair entry).destination request) dstChild = made,
        mkdir _ ((visit'.session.visiting pair entry).destination request) dstChild = made'
        at hmade ⊢
      cases hmade with
      | error failure =>
        dsimp only
        split_ifs
        · exact ⟨hsession.tick.dirDone, hvisit.ok, congrArg (· ++ _) hvisit.found⟩
        · rw [hsession.detail]
          exact ⟨hsession.tick.fail _ _ _, rfl, hvisit.found⟩
      | ok hmade =>
        exact ⟨((hsession.tick.setVolume _ hmade).copied _).dirDone, hvisit.ok,
          congrArg (· ++ _) hvisit.found⟩
    · obtain ⟨hok, halike⟩ :
          Both (copyFile env request _ dstChild _) (copyFile env request _ dstChild _) :=
        copyFile_alike (hsession.current (joinRel pair.src entry.name)) (joinRel pair.src entry.name) dstChild
      exact ⟨halike, congrArg₂ (· && ·) hvisit.ok hok, hvisit.found⟩

theorem visitEntries_alike (pair : DirPair) (entries : List FileEntry) {visit visit' : Visit}
    (hvisit : visit.Alike visit') :
    (entries.foldl (visitEntry env request pair) visit).Alike
      (entries.foldl (visitEntry env request pair) visit') := by
  induction entries generalizing visit visit' with
  | nil => exact hvisit
  | cons entry entries ih => exact ih (visitEntry_alike pair hvisit entry)

theorem copyDir_alike (halike : left.Alike right) (ok : Bool) (pair : DirPair) :
    Sum.LiftRel Both (fun next next' ↦ Both next.1 next'.1 ∧ next.2 = next'.2)
      (copyDir env request (ok, left) pair) (copyDir env request (ok, right) pair) := by
  have hwalked := halike.tick.scanned pair.src
  simp only [copyDir]
  rw [halike.report, halike.fate, scan_alike (halike.source request)]
  split_ifs
  · exact .inl ⟨rfl, halike⟩
  · split
    · exact .inr ⟨⟨rfl, hwalked.failed _ _ _⟩, rfl⟩
    · rename_i entries _
      have hstart :
          Visit.Alike { session := left.tick.scanned pair.src } { session := right.tick.scanned pair.src } :=
        ⟨hwalked, rfl, rfl⟩
      have hvisit : Visit.Alike (entries.foldl (visitEntry env request pair) _)
          (entries.foldl (visitEntry env request pair) _) :=
        visitEntries_alike pair entries hstart
      exact .inr ⟨⟨congrArg (ok && ·) hvisit.ok, hvisit.session⟩, hvisit.found⟩

theorem copyEntry_alike (halike : left.Alike right) (fuel : Nat) (srcTop dstTop : Bytes) (srcIsDir : Bool) :
    Option.Rel Both (copyEntry env request fuel srcTop dstTop srcIsDir left)
      (copyEntry env request fuel srcTop dstTop srcIsDir right) := by
  unfold copyEntry
  split_ifs
  · refine Worklist.coupled Both Both ?_ (fun _ _ hboth ↦ hboth) fuel _ ⟨rfl, ?_⟩
    · rintro pair ⟨ok, left⟩ ⟨_, right⟩ ⟨hok, halike⟩
      obtain rfl : ok = _ := hok
      exact copyDir_alike halike ok pair
    · exact ⟨halike.volumes, halike.clock, halike.detail, halike.report⟩
  · exact .some (copyFile_alike (halike.current srcTop) srcTop dstTop)

end DhcpServer.Files.TransferEngine
