import DhcpServer.Files.TransferRun

/-!
# Stopping a transfer

Between the windows of a file and before each rename a run asks whether it is to stop. Once the answer
has been yes, and it stays so, nothing is made at the destination and nothing is taken from the source,
as long as the scan of the directory that is under way comes to no empty file and to no directory whose
place is free: those pass without the question.
-/

namespace DhcpServer.Files.TransferEngine

open Library Storage.PathUtil List Option FileManager

variable {env : Environment} {request : TransferRequest} {session after later : Session}
  {src dst : Bytes} {fuel : Nat}

/-! ## What stopping means -/

def Environment.KeepsStopping (env : Environment) : Prop :=
  ∀ moment later, moment ≤ later → env.stop moment = true → env.stop later = true

/-- A file with something in it, or a directory whose place is taken. -/
def Harmless (request : TransferRequest) (encounter : Encounter) : Prop :=
  if encounter.entry.isDir then
    ∀ path ∈ normalizeChild encounter.pair.dst encounter.entry.name, ∀ names ∈ absolute path,
      (encounter.volumes request.dstVolume).find names ≠ none
  else
    ∀ names ∈ absolute (joinRel encounter.pair.src encounter.entry.name),
      (encounter.volumes request.srcVolume).find names ≠ some (.file [])

instance (request : TransferRequest) (encounter : Encounter) : Decidable (Harmless request encounter) :=
  inferInstanceAs (Decidable (ite _ _ _))

theorem fail_cancelled (session : Session) (path : Bytes) (status : FileStatus) (why : Bytes) :
    (session.fail path status why).report.cancelled = session.report.cancelled := by
  unfold Session.fail
  dsimp only
  split
  · rfl
  · rfl

/-- Nothing has been changed after the request to stop was seen, and it stays. -/
structure Halted (env : Environment) (session : Session) : Prop where
  stops : session.report.cancelled = true → ∀ moment, session.clock ≤ moment → env.stop moment = true
  changes : session.lateChanges = []

/-- A part of a run that stops unless an entry on its way is not harmless. -/
structure Onward (env : Environment) (request : TransferRequest) (session session' : Session) : Prop where
  visits : session.lateVisits ⊆ session'.lateVisits
  halted : (∀ encounter ∈ session'.lateVisits, Harmless request encounter) →
    Halted env session → Halted env session'

namespace Onward

theorem refl (session : Session) : Onward env request session session :=
  ⟨List.Subset.refl _, fun _ hhalted ↦ hhalted⟩

theorem trans (hfirst : Onward env request session after)
    (hsecond : Onward env request after later) : Onward env request session later where
  visits := List.Subset.trans hfirst.visits hsecond.visits
  halted hharmless hhalted :=
    hsecond.halted hharmless
      (hfirst.halted (fun encounter hencounter ↦ hharmless encounter (hsecond.visits hencounter)) hhalted)

theorem of_same (hclock : session.clock ≤ after.clock)
    (hcancelled : after.report.cancelled = session.report.cancelled)
    (hvisits : after.lateVisits = session.lateVisits)
    (hchanges : after.lateChanges = session.lateChanges) :
    Onward env request session after where
  visits := by
    rw [hvisits]
    exact List.Subset.refl _
  halted _ hhalted := by
    refine ⟨fun hafter moment hmoment ↦ ?_, hchanges.trans hhalted.changes⟩
    rw [hcancelled] at hafter
    exact hhalted.stops hafter moment (hclock.trans hmoment)

section Steps

variable (honward : Onward env request session after)

include honward

theorem tick : Onward env request session after.tick := honward.trans (of_same (Nat.le_succ _) rfl rfl rfl)

theorem note (failure : Failure) : Onward env request session (after.note failure) :=
  honward.trans (of_same le_rfl rfl rfl rfl)

theorem setVolume (volume : Bytes) (tree : Tree) :
    Onward env request session (after.setVolume volume tree) :=
  honward.trans (of_same le_rfl rfl rfl rfl)

theorem current (path : Bytes) : Onward env request session (after.current path) :=
  honward.trans (of_same le_rfl rfl rfl rfl)

theorem received (count : Nat) : Onward env request session (after.received count) :=
  honward.trans (of_same le_rfl rfl rfl rfl)

theorem fileDone : Onward env request session after.fileDone := honward.trans (of_same le_rfl rfl rfl rfl)

theorem dirDone : Onward env request session after.dirDone := honward.trans (of_same le_rfl rfl rfl rfl)

theorem entryDeleted : Onward env request session after.entryDeleted :=
  honward.trans (of_same le_rfl rfl rfl rfl)

theorem entrySkipped : Onward env request session after.entrySkipped :=
  honward.trans (of_same le_rfl rfl rfl rfl)

theorem measured (measure : Measure) : Onward env request session (after.measured measure) :=
  honward.trans (of_same le_rfl rfl rfl rfl)

theorem fail (path : Bytes) (status : FileStatus) (why : Bytes) :
    Onward env request session (after.fail path status why) := by
  exact honward.trans (of_same le_rfl (fail_cancelled after path status why) rfl rfl)

end Steps

end Onward

theorem cancelRequested_onward (hkeeps : env.KeepsStopping) (session : Session) :
    Onward env request session (session.cancelRequested env).2 := by
  unfold Session.cancelRequested
  split_ifs with hstop
  · refine ⟨List.Subset.refl _, fun _ hhalted ↦ ⟨fun _ moment hmoment ↦ ?_, hhalted.changes⟩⟩
    exact hkeeps session.clock moment (Nat.le_of_succ_le hmoment) hstop
  · exact (Onward.refl session).tick

theorem cancelRequested_go (hgo : (session.cancelRequested env).1 = false) :
    env.stop session.clock = false ∧ (session.cancelRequested env).2 = session.tick := by
  unfold Session.cancelRequested at hgo ⊢
  split_ifs at hgo ⊢ with hstop
  exact ⟨by simpa using hstop, rfl⟩

theorem cancelRequested_visits (env : Environment) (session : Session) :
    (session.cancelRequested env).2.lateVisits = session.lateVisits := by
  unfold Session.cancelRequested
  split
  · rfl
  · rfl

theorem Onward.copied (honward : Onward env request session after) (pair : DirPair)
    (hgo : after.report.cancelled → Halted env session →
      (∀ encounter ∈ after.lateVisits, Harmless request encounter) → False) :
    Onward env request session (after.copied pair) where
  visits := honward.visits
  halted hharmless hhalted := by
    have hafter := honward.halted hharmless hhalted
    refine ⟨hafter.stops, ?_⟩
    change (if after.report.cancelled then _ else after.lateChanges) = []
    rw [if_neg fun hcancelled ↦ hgo hcancelled hhalted hharmless]
    exact hafter.changes

theorem Onward.taken (honward : Onward env request session after) (path : Bytes)
    (hgo : after.report.cancelled = false) :
    Onward env request session (after.taken path) where
  visits := honward.visits
  halted hharmless hhalted := by
    have hafter := honward.halted hharmless hhalted
    refine ⟨hafter.stops, ?_⟩
    change (if after.report.cancelled then _ else after.lateChanges) = []
    rw [if_neg (by simp [hgo])]
    exact hafter.changes

/-- What the loop over the windows can do about a request to stop. -/
structure ChunksOnward (env : Environment) (request : TransferRequest) (chunks : List Bytes)
    (session : Session) (answer : Bool × Session) : Prop where
  onward : Onward env request session answer.2
  visits : answer.2.lateVisits = session.lateVisits
  complete : answer.1 = true → answer.2.report.cancelled = session.report.cancelled ∧
    (session.report.cancelled = true → Halted env session → chunks = [])

theorem ChunksOnward.failed {chunks : List Bytes} (honward : Onward env request session after)
    (hvisits : after.lateVisits = session.lateVisits) :
    ChunksOnward env request chunks session (false, after) :=
  ⟨honward, hvisits, by rintro ⟨⟩⟩

theorem copyChunks_onward (hkeeps : env.KeepsStopping) (request : TransferRequest)
    (sink : FileSink) (src : Bytes) (chunks : List Bytes) (session : Session) :
    ChunksOnward env request chunks session
      (copyChunks env request sink src chunks session) := by
  induction chunks generalizing session with
  | nil =>
    rw [copyChunks]
    split_ifs
    · exact .failed ((((Onward.refl session).tick.tick.setVolume _ _).fail _ _ _)) rfl
    · dsimp only
      split_ifs
      · exact ⟨((Onward.refl session).tick.tick.tick.tick.tick.setVolume _ _).fileDone, rfl,
          fun _ ↦ ⟨rfl, fun _ _ ↦ rfl⟩⟩
      · exact .failed (((Onward.refl session).tick.tick.tick.tick.tick.setVolume _ _).fail _ _ _) rfl
  | cons chunk chunks ih =>
    rw [copyChunks]
    split_ifs
    · exact .failed ((((Onward.refl session).tick.tick.setVolume _ _).fail _ _ _)) rfl
    · dsimp only
      split
      case h_1 => exact .failed ((((Onward.refl session).tick.tick.tick.setVolume _ _).fail _ _ _)) rfl
      case h_2 written hwrite =>
        have hreceived : Onward env request session
            ((session.tick.tick.setVolume request.dstVolume written).received chunk.length) :=
          ((Onward.refl session).tick.tick.setVolume _ _).received _
        have hasked := hreceived.trans (cancelRequested_onward hkeeps _)
        cases hanswer : (((session.tick.tick.setVolume request.dstVolume written).received
            chunk.length).cancelRequested env).1 with
        | true =>
          rw [if_pos rfl]
          exact .failed (hasked.tick.setVolume _ _) (cancelRequested_visits _ _)
        | false =>
          obtain ⟨hgo, hsame⟩ := cancelRequested_go hanswer
          rw [if_neg Bool.false_ne_true]
          rw [hsame] at hasked ⊢
          have hrest := ih ((session.tick.tick.setVolume request.dstVolume written).received
            chunk.length).tick
          refine ⟨hasked.trans hrest.onward, hrest.visits, fun hcomplete ↦
            ⟨(hrest.complete hcomplete).1, fun hcancelled hhalted ↦ ?_⟩⟩
          have hstop := hhalted.stops hcancelled _ (Nat.le_add_right session.clock 2)
          cases hgo.symm.trans hstop

theorem windows_ne_nil {content : Bytes} (hcontent : content ≠ []) : windows content ≠ [] := by
  obtain ⟨byte, rest, rfl⟩ := exists_cons_of_ne_nil hcontent
  rw [windows, length_cons, windowsFrom]
  · exact cons_ne_nil _ _
  · exact cons_ne_nil _ _

theorem copyFile_onward (hkeeps : env.KeepsStopping)
    (hfull : (∀ encounter ∈ session.lateVisits, Harmless request encounter) →
      session.report.cancelled → ∀ names ∈ absolute src,
        (session.source request).find names ≠ some (.file [])) :
    Onward env request session (copyFile env request src dst session).2 := by
  unfold copyFile
  split_ifs
  · exact (Onward.refl session).tick.fail _ _ _
  · obtain ⟨detail, hdetail⟩ := statNoted_eq env request session src
    dsimp only
    rw [hdetail]
    have hnoted : Onward env request session { session.tick with detail } :=
      (Onward.refl session).tick.trans (.of_same le_rfl rfl rfl rfl)
    split
    case h_1 => exact (hnoted.tick.note _).fail _ _ _
    case h_2 content hopen =>
      obtain ⟨names, habs, hfile⟩ := openRead_eq_ok hopen
      split
      case h_1 => exact (hnoted.tick.tick.note _).fail _ _ _
      case h_2 sink opened hcreate =>
        have hopened := hnoted.tick.tick.setVolume request.dstVolume opened
        have hchunks := copyChunks_onward hkeeps request sink src (windows content)
          ({ session.tick with detail }.tick.tick.setVolume request.dstVolume opened)
        have hall := hopened.trans hchunks.onward
        split_ifs with hcomplete
        · refine hall.copied ⟨src, dst⟩ fun hcancelled hhalted hharmless ↦ ?_
          obtain ⟨hsame, hempty⟩ := hchunks.complete hcomplete
          rw [hsame] at hcancelled
          rw [hchunks.visits] at hharmless
          have hnone := hempty hcancelled (hopened.halted hharmless hhalted)
          refine windows_ne_nil (fun hcontent ↦ ?_) hnone
          rw [hcontent] at hfile
          exact hfull hharmless hcancelled names habs hfile
        · exact hall

theorem visiting_onward (session : Session) (pair : DirPair) (entry : FileEntry) :
    Onward env request session (session.visiting pair entry) where
  visits := by
    change _ ⊆ if session.report.cancelled then session.lateVisits ++ _ else session.lateVisits
    split
    · exact subset_append_left _ _
    · exact List.Subset.refl _
  halted _ hhalted := ⟨hhalted.stops, hhalted.changes⟩

theorem mem_visiting (hcancelled : session.report.cancelled) (pair : DirPair) (entry : FileEntry) :
    ⟨pair, entry, session.volumes⟩ ∈ (session.visiting pair entry).lateVisits := by
  change _ ∈ if session.report.cancelled then session.lateVisits ++ _ else session.lateVisits
  rw [if_pos hcancelled]
  exact mem_append_right _ mem_cons_self

theorem visitEntry_onward (hkeeps : env.KeepsStopping) (pair : DirPair) (visit : Visit)
    (entry : FileEntry) :
    Onward env request visit.session
      (visitEntry env request pair visit entry).session := by
  have hvisiting : Onward env request visit.session (visit.session.visiting pair entry) :=
    visiting_onward visit.session pair entry
  have hmet (hharmless : ∀ encounter ∈ (visit.session.visiting pair entry).lateVisits,
      Harmless request encounter) (hcancelled : visit.session.report.cancelled = true) :
      Harmless request ⟨pair, entry, visit.session.volumes⟩ :=
    hharmless _ (mem_visiting hcancelled pair entry)
  unfold visitEntry
  dsimp only
  split
  case h_1 => exact hvisiting.fail _ _ _
  case h_2 dstChild hchild =>
    split_ifs with hdir
    · split
      case h_1 made hmkdir =>
        refine ((hvisiting.tick.setVolume _ _).copied _ fun hcancelled _ hharmless ↦ ?_).dirDone
        obtain ⟨names, habs, hmade⟩ := mkdir_eq_ok hmkdir
        have hfree := hmet hharmless hcancelled
        rw [Harmless, if_pos hdir] at hfree
        exact hfree dstChild hchild names habs (FileTree.mkdir_spec hmade).2.2.1
      case h_2 failure hmkdir =>
        split_ifs
        · exact hvisiting.tick.dirDone
        · exact hvisiting.tick.fail _ _ _
    · refine (hvisiting.current _).trans (copyFile_onward hkeeps fun hharmless hcancelled ↦ ?_)
      have hfull := hmet hharmless hcancelled
      rw [Harmless, if_neg hdir] at hfull
      exact hfull

theorem visitEntries_onward (hkeeps : env.KeepsStopping) (pair : DirPair)
    (entries : List FileEntry) (visit : Visit) :
    Onward env request visit.session
      (entries.foldl (visitEntry env request pair) visit).session := by
  induction entries generalizing visit with
  | nil => exact .refl visit.session
  | cons entry entries ih => exact (visitEntry_onward hkeeps pair visit entry).trans (ih _)

theorem copyDir_onward (hkeeps : env.KeepsStopping) {pair : DirPair}
    {progress progress' : Bool × Session} {found : List DirPair}
    (hstep : copyDir env request progress pair = .inr (progress', found)) :
    Onward env request progress.2 progress'.2 := by
  have hwalked : Onward env request progress.2 (progress.2.tick.scanned pair.src) :=
    (Onward.refl progress.2).tick.trans (.of_same le_rfl rfl rfl rfl)
  unfold copyDir at hstep
  dsimp only at hstep
  split_ifs at hstep
  split at hstep
  case h_1 =>
    cases hstep
    exact (hwalked.note _).fail _ _ _
  case h_2 entries hscan =>
    cases hstep
    exact hwalked.trans (visitEntries_onward hkeeps pair entries
      { session := progress.2.tick.scanned pair.src })

variable {isDir : Bool}

theorem copyEntry_onward (hkeeps : env.KeepsStopping) {answer : Bool × Session}
    (hgo : session.report.cancelled = false)
    (hanswer : copyEntry env request fuel src dst isDir session = some answer) :
    Onward env request session answer.2 := by
  unfold copyEntry at hanswer
  split_ifs at hanswer
  · refine Worklist.invariant (fun _ progress ↦ Onward env request session progress.2)
      (fun answer ↦ Onward env request session answer.2) ?_ ?_ (fun _ honward ↦ honward) hanswer
      (.of_same le_rfl rfl rfl rfl)
    · intro pair queue progress progress' found honward hstep
      exact honward.trans (copyDir_onward hkeeps hstep)
    · intro pair queue progress answer honward hstep
      rw [(copyDir_stop hstep).1]
      exact honward
  · cases hanswer
    refine ((Onward.refl session).current src).trans (copyFile_onward hkeeps fun _ hcancelled ↦ ?_)
    cases hgo.symm.trans hcancelled

theorem deleteSource_onward {path : Bytes} (hgo : session.report.cancelled = false) :
    Onward env request session (deleteSource env request path isDir session) := by
  unfold deleteSource
  dsimp only
  have hleft : Onward env request session (session.tick.setVolume request.srcVolume
      (remove (session.fate env) (session.source request) path isDir).2) :=
    (Onward.refl session).tick.setVolume _ _
  have htaken := hleft.taken path hgo
  split
  · exact (htaken.note _).fail _ _ _
  · exact htaken.entryDeleted

theorem copyAndDelete_onward (hkeeps : env.KeepsStopping)
    (hgo : session.report.cancelled = false)
    (hafter : copyAndDelete env request fuel src dst isDir session = some after) :
    Onward env request session after := by
  obtain ⟨answer, hanswer, rfl⟩ := map_eq_some_iff.mp hafter
  have hcopy := copyEntry_onward hkeeps hgo hanswer
  split_ifs with hcancelled
  · exact hcopy
  · have hgo' : (answer.2.current src).report.cancelled = false := eq_false_of_ne_true hcancelled
    exact (hcopy.current src).trans (deleteSource_onward hgo')
  · exact hcopy.current src

theorem transferTo_onward (hkeeps : env.KeepsStopping)
    (hgo : session.report.cancelled = false)
    (hafter : transferTo env request fuel src dst isDir session = some after) :
    Onward env request session after := by
  unfold transferTo at hafter
  split_ifs at hafter
  · split at hafter
    case h_1 made hmkdir =>
      have hmade : Onward env request session
          (((session.tick.setVolume request.dstVolume made).copied ⟨src, dst⟩).dirDone) := by
        refine (((Onward.refl session).tick.setVolume _ _).copied _ fun hcancelled _ _ ↦ ?_).dirDone
        cases hgo.symm.trans hcancelled
      exact hmade.trans (copyAndDelete_onward hkeeps hgo hafter)
    case h_2 failure hmkdir =>
      split_ifs at hafter
      · exact (Onward.refl session).tick.trans (copyAndDelete_onward hkeeps hgo hafter)
      · cases hafter
        exact (Onward.refl session).tick.fail _ _ _
  · exact copyAndDelete_onward hkeeps hgo hafter

variable {dstDir raw : Bytes}

theorem transferPath_onward (hkeeps : env.KeepsStopping)
    (hgo : session.report.cancelled = false)
    (hafter : transferPath env request fuel dstDir raw session = some after) :
    Onward env request session after := by
  have hstart : Onward env request session session.tick := (Onward.refl session).tick
  unfold transferPath at hafter
  split at hafter
  case h_1 =>
    cases hafter
    exact .refl session
  case h_2 path hnormal =>
    split at hafter
    case h_1 =>
      cases hafter
      exact (Onward.refl session).fail _ _ _
    case h_2 target htarget =>
      split at hafter
      case h_1 =>
        cases hafter
        exact (hstart.note _).fail _ _ _
      case h_2 srcEntry hstat =>
        dsimp only at hafter
        split at hafter
        case h_1 => exact hstart.tick.trans (transferTo_onward hkeeps hgo hafter)
        case h_2 dstEntry htaken =>
          split_ifs at hafter
          · cases hafter
            exact hstart.tick.entrySkipped
          · cases hafter
            exact hstart.tick.fail _ _ _
          · exact hstart.tick.trans (transferTo_onward hkeeps hgo hafter)

variable {dstDir : Bytes}

theorem transferPaths_onward (hkeeps : env.KeepsStopping)
    (hafter : transferPaths env request fuel dstDir session = some after) :
    Onward env request session after := by
  refine Worklist.foldlM_invariant (Onward env request session)
    (fun middle raw next honward _ hnext ↦ ?_) hafter (.refl session)
  split_ifs at hnext with hcancelled
  · cases hnext
    exact honward
  · exact honward.trans (transferPath_onward hkeeps (by simpa using hcancelled) hnext)

theorem measureDir_onward {progress progress' : Measure × Session} {dir : Bytes} {found : List Bytes}
    (hstep : measureDir env request progress dir = .inr (progress', found)) :
    Onward env request progress.2 progress'.2 := by
  obtain ⟨-, -, rfl, -⟩ := measureDir_eq hstep
  exact ((Onward.refl progress.2).current dir).tick

theorem measureDir_stop_onward {progress : Measure × Session} {dir : Bytes}
    {answer : Except Failure Measure × Session}
    (hstep : measureDir env request progress dir = .inl answer) :
    Onward env request progress.2 answer.2 := by
  unfold measureDir at hstep
  dsimp only at hstep
  split at hstep
  case h_1 =>
    obtain rfl := Sum.inl.inj hstep
    exact ((Onward.refl progress.2).current dir).tick.note _
  case h_2 => cases hstep

theorem measureEntry_onward {answer : Except Failure Measure × Session}
    (hanswer : measureEntry env request fuel src session = some answer) :
    Onward env request session answer.2 := by
  unfold measureEntry at hanswer
  split at hanswer
  case h_1 =>
    cases hanswer
    exact (Onward.refl session).tick.note _
  case h_2 =>
    split_ifs at hanswer
    · exact Worklist.invariant (fun _ progress ↦ Onward env request session progress.2)
        (fun answer ↦ Onward env request session answer.2)
        (fun _ _ _ _ _ honward hstep ↦ honward.trans (measureDir_onward hstep))
        (fun _ _ _ _ honward hstep ↦ honward.trans (measureDir_stop_onward hstep))
        (fun _ honward ↦ honward) hanswer (Onward.refl session).tick
    · cases hanswer
      exact (Onward.refl session).tick

theorem measurePath_onward (hafter : measurePath env request fuel dstDir raw session = some after) :
    Onward env request session after := by
  unfold measurePath at hafter
  split at hafter
  case h_1 =>
    cases hafter
    exact .refl session
  case h_2 =>
    split_ifs at hafter
    · cases hafter
      exact (Onward.refl session).tick
    · obtain ⟨answer, hanswer, rfl⟩ := map_eq_some_iff.mp hafter
      have hmeasured := (Onward.refl session).tick.trans (measureEntry_onward hanswer)
      split
      · exact hmeasured.fail _ _ _
      · exact hmeasured.measured _

theorem measureAndCopy_onward (hkeeps : env.KeepsStopping)
    (hafter : measureAndCopy env request fuel dstDir session = some after) :
    Onward env request session after := by
  obtain ⟨middle, hmiddle, hcopy⟩ := bind_eq_some_iff.mp hafter
  have hmeasured : Onward env request session middle :=
    Worklist.foldlM_invariant (Onward env request session)
      (fun _ _ _ honward _ hnext ↦ honward.trans (measurePath_onward hnext)) hmiddle (.refl session)
  have hcompared : Onward env request session
      (middle.tick.compared (env.free middle.clock)) :=
    hmeasured.tick.trans (.of_same le_rfl rfl rfl rfl)
  dsimp only at hcopy
  split_ifs at hcopy
  · cases hcopy
    exact hcompared.fail _ _ _
  · have hcopying : Onward env request session
        (middle.tick.compared (env.free middle.clock)).copying :=
      hcompared.trans (.of_same le_rfl rfl rfl rfl)
    exact hcopying.trans (transferPaths_onward hkeeps hcopy)

theorem renameEntry_onward {entry : FileEntry} (hgo : session.report.cancelled = false) :
    Onward env request session (renameEntry env request src dst entry session) := by
  unfold renameEntry
  split
  · exact ((Onward.refl session).tick.note _).fail _ _ _
  · next moved _ =>
    have hmoved : Onward env request session
        (session.tick.setVolume request.srcVolume moved) := (Onward.refl session).tick.setVolume _ _
    have htaken := (hmoved.taken src hgo).entryDeleted
    split
    · exact htaken.dirDone
    · exact htaken.fileDone

theorem renamePath_onward (hgo : session.report.cancelled = false) :
    Onward env request session (renamePath env request dstDir raw session) := by
  have hstart : Onward env request session session.tick := (Onward.refl session).tick
  unfold renamePath
  split
  · exact .refl session
  · split
    · exact (Onward.refl session).fail _ _ _
    · split
      · exact hstart.trans (renameEntry_onward hgo)
      · dsimp only
        split_ifs
        · exact hstart.fail _ _ _
        · exact hstart.entrySkipped
        · have hleft := hstart.tick.setVolume request.srcVolume
          split
          · exact ((hleft _).note _).fail _ _ _
          · exact (hleft _).trans (renameEntry_onward hgo)

theorem renameEntry_cancelled (env : Environment) (request : TransferRequest) (src dst : Bytes)
    (entry : FileEntry) (session : Session) :
    (renameEntry env request src dst entry session).report.cancelled =
      session.report.cancelled := by
  unfold renameEntry
  split
  · exact fail_cancelled _ _ _ _
  · split
    · rfl
    · rfl

theorem renamePath_cancelled (env : Environment) (request : TransferRequest) (dstDir raw : Bytes)
    (session : Session) :
    (renamePath env request dstDir raw session).report.cancelled = session.report.cancelled := by
  unfold renamePath
  split
  · rfl
  · split
    · exact fail_cancelled _ _ _ _
    · split
      · exact renameEntry_cancelled _ _ _ _ _ _
      · dsimp only
        split_ifs
        · exact fail_cancelled _ _ _ _
        · rfl
        · split
          · exact fail_cancelled _ _ _ _
          · exact renameEntry_cancelled _ _ _ _ _ _

theorem runInstant_onward (hkeeps : env.KeepsStopping) (paths : List Bytes)
    (hgo : session.report.cancelled = false) :
    Onward env request session (runInstant env request dstDir paths session) := by
  induction paths generalizing session with
  | nil => exact .refl session
  | cons raw paths ih =>
    have hasked : Onward env request session (session.cancelRequested env).2 :=
      cancelRequested_onward hkeeps session
    rw [runInstant]
    split_ifs with hstop
    · exact hasked
    · rw [(cancelRequested_go (eq_false_of_ne_true hstop)).2] at hasked ⊢
      have hgo' : session.tick.report.cancelled = false := hgo
      refine (hasked.trans (renamePath_onward hgo')).trans (ih ?_)
      rw [renamePath_cancelled, hgo']

theorem Onward.detailed (honward : Onward env request session after) (detail : Bytes) :
    Onward env request session { after with detail } :=
  honward.trans (.of_same le_rfl rfl rfl rfl)

theorem validatePaths_onward (env : Environment) (request : TransferRequest) (dstDir : Bytes)
    (paths : List Bytes) (session : Session) :
    Onward env request session (validatePaths env request dstDir paths session).2 := by
  induction paths generalizing session with
  | nil => exact .refl session
  | cons raw paths ih =>
    have htick : Onward env request session session.tick := (Onward.refl session).tick
    rw [validatePaths]
    split
    · exact (Onward.refl session).detailed _
    · split
      · exact (Onward.refl session).detailed _
      · split
        · exact htick.note _
        · split_ifs
          · exact htick.detailed _
          · exact htick.detailed _
          · exact htick.trans (ih session.tick)

theorem validate_onward (session : Session) :
    Onward env request session (validate env request session).2 := by
  unfold validate
  split
  · exact (Onward.refl session).detailed _
  · split
    · exact (Onward.refl session).detailed _
    · split
      · exact (Onward.refl session).detailed _
      · next dstDir _ =>
        have hpaths := validatePaths_onward env request dstDir request.paths session
        dsimp only
        split
        · exact hpaths
        · split
          · exact hpaths.tick
          · split_ifs
            · exact (hpaths.tick.note _).detailed _
            · exact hpaths.tick.note _

theorem runAccepted_onward (hkeeps : env.KeepsStopping)
    (hgo : session.report.cancelled = false)
    (hafter : runAccepted env request fuel dstDir session = some after) :
    Onward env request session after := by
  have hdirected : Onward env request session (session.directed dstDir) := .of_same le_rfl rfl rfl rfl
  unfold runAccepted at hafter
  split_ifs at hafter
  · cases hafter
    have hinstantly : Onward env request session (session.directed dstDir).instantly :=
      .of_same le_rfl rfl rfl rfl
    exact (hinstantly.trans (runInstant_onward hkeeps _ hgo)).trans (.of_same le_rfl rfl rfl rfl)
  · obtain ⟨last, hlast, rfl⟩ := map_eq_some_iff.mp hafter
    exact (hdirected.trans (measureAndCopy_onward hkeeps hlast)).trans (.of_same le_rfl rfl rfl rfl)

/-- Once a request to stop has been seen, nothing is made at the destination and nothing is taken from
the source, where the entries that are visited after it are harmless. -/
theorem cancel_stops_run {volumes : Bytes → Tree} (hkeeps : env.KeepsStopping)
    (hrun : run env request fuel volumes = some session)
    (hharmless : ∀ encounter ∈ session.lateVisits, Harmless request encounter) :
    session.lateChanges = [] := by
  have hchecked : Onward env request (start request volumes)
      (validate env request (start request volumes)).2 := validate_onward _
  have hstart : Halted env (start request volumes) := ⟨by rintro ⟨⟩, rfl⟩
  suffices honward : Onward env request (start request volumes) session from
    (honward.halted hharmless hstart).changes
  unfold run at hrun
  dsimp only at hrun
  split at hrun
  · cases hrun
    exact (hchecked.fail _ _ _).trans (.of_same le_rfl rfl rfl rfl)
  · have hgo : (validate env request (start request volumes)).2.report.cancelled = false := by
      rw [(validate_quiet env request (start request volumes)).2]
      rfl
    exact hchecked.trans (runAccepted_onward hkeeps hgo hrun)

def impatient : Environment where
  stop _ := true
  free _ := 1000000

/-- Two directories: after the first file of `a` comes another one, after that of `b` a directory and an
empty file. -/
def twoShelves : Volume :=
  .ofEntries
    [([ascii "a"], .dir), ([ascii "a", ascii "f"], .file [1]), ([ascii "a", ascii "g"], .file [2]),
      ([ascii "b"], .dir), ([ascii "b", ascii "f"], .file [1]), ([ascii "b", ascii "d"], .dir),
      ([ascii "b", ascii "e"], .file [])]
    (by decide) (by decide) (by decide) (by decide)

def emptyVolume : Volume := .ofEntries [] (by decide) (by decide) (by decide) (by decide)

def copyShelf (path : Bytes) : TransferRequest where
  srcVolume := ascii "data"
  paths := [path]
  dstVolume := ascii "sd"
  dstPath := ascii "/"

theorem cancel_stops_run_second_file : ∃ session ∈ run impatient (copyShelf (ascii "/a")) 20
        fun volume ↦ if volume = ascii "data" then twoShelves.toFileTree else emptyVolume.toFileTree,
      session.lateVisits.length = 1 ∧ session.lateChanges = [] := by
  have hrun : ∃ session ∈ run impatient (copyShelf (ascii "/a")) 20
      fun volume ↦ if volume = ascii "data" then twoShelves.toFileTree else emptyVolume.toFileTree,
      session.lateVisits.length = 1 ∧
        ∀ encounter ∈ session.lateVisits, Harmless (copyShelf (ascii "/a")) encounter := by
    decide +kernel
  obtain ⟨session, hsession, hlength, hharmless⟩ := hrun
  exact ⟨session, hsession, hlength, cancel_stops_run (fun _ _ _ _ ↦ rfl) hsession hharmless⟩

/-- The request to stop is seen in the first file; the directory and the empty file after it are made. -/
theorem cancel_makes_more : impatient.KeepsStopping ∧
      ∃ session ∈ run impatient (copyShelf (ascii "/b")) 20
          fun volume ↦ if volume = ascii "data" then twoShelves.toFileTree else emptyVolume.toFileTree,
        session.lateChanges = [ascii "/b/d", ascii "/b/e"] := by
  refine ⟨fun _ _ _ _ ↦ rfl, ?_⟩
  decide +kernel

end DhcpServer.Files.TransferEngine
