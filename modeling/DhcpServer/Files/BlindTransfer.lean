import DhcpServer.Files.BlindCopy

/-!
# A transfer does not look at contents

Two runs of the engine on volumes that are alike, from the check of the request to the report.
-/

namespace DhcpServer.Files.TransferEngine

open Library Storage.PathUtil FileManager

variable {env : Environment} {request : TransferRequest} {left right : Session}

section

variable (halike : left.Alike right)
include halike

theorem renameEntry_alike (src target : Bytes) (entry : FileEntry) :
    (renameEntry env request src target entry left).Alike
      (renameEntry env request src target entry right) := by
  unfold renameEntry
  rw [halike.fate]
  have hmoved := rename_alike (halike.source request) (right.fate env) src target
  generalize rename _ (left.source request) src target = moved,
    rename _ (right.source request) src target = moved' at hmoved ⊢
  cases hmoved with
  | error failure => exact halike.tick.failed src failure.status failure
  | ok hmoved =>
    have hrenamed := ((halike.tick.setVolume request.srcVolume hmoved).taken src).entryDeleted
    split_ifs
    · exact hrenamed.dirDone
    · exact hrenamed.fileDone

theorem renamePath_alike (dstDir raw : Bytes) : (renamePath env request dstDir raw left).Alike
      (renamePath env request dstDir raw right) := by
  unfold renamePath
  cases normalize raw with
  | none => exact halike
  | some src =>
    dsimp only
    cases normalizeChild dstDir (basename src) with
    | none => exact halike.fail _ _ _
    | some target =>
      dsimp only
      rw [halike.fate, stat_alike (halike.source request)]
      split
      · exact renameEntry_alike halike.tick src target {}
      · rename_i entry _
        split_ifs
        · exact halike.tick.fail _ _ _
        · exact halike.tick.entrySkipped
        · obtain ⟨hanswer, hrest⟩ := remove_alike (halike.tick.source request)
            (right.tick.fate env) target false
          have hleft := halike.tick.tick.setVolume request.srcVolume hrest
          rw [halike.tick.fate, hanswer]
          split
          · exact hleft.failed _ _ _
          · exact renameEntry_alike hleft src target entry

theorem runInstant_alike (dstDir : Bytes) (paths : List Bytes) :
    (runInstant env request dstDir paths left).Alike
      (runInstant env request dstDir paths right) := by
  induction paths generalizing left right with
  | nil => exact halike
  | cons raw paths ih =>
    obtain ⟨hstop, halike⟩ : Both (left.cancelRequested env) (right.cancelRequested env) :=
      halike.cancelRequested
    simp only [runInstant]
    rw [hstop]
    split_ifs
    · exact halike
    · exact ih (renamePath_alike halike dstDir raw)

theorem Session.Alike.detailed (detail : Bytes) : { left with detail }.Alike { right with detail } :=
  ⟨halike.volumes, halike.clock, rfl, halike.report⟩

theorem validatePaths_alike (dstDir : Bytes) (paths : List Bytes) :
    Both (validatePaths env request dstDir paths left)
      (validatePaths env request dstDir paths right) := by
  induction paths generalizing left right with
  | nil => exact ⟨rfl, halike⟩
  | cons raw paths ih =>
    rw [validatePaths, validatePaths]
    cases normalize raw with
    | none => exact ⟨rfl, halike.detailed _⟩
    | some path =>
      dsimp only
      rw [halike.fate, stat_alike (halike.source request)]
      by_cases hroot : path = [slash]
      · rw [if_pos hroot, if_pos hroot]
        exact ⟨rfl, halike.detailed _⟩
      · rw [if_neg hroot, if_neg hroot]
        split
        · exact ⟨rfl, halike.tick.note _⟩
        · split_ifs
          · exact ⟨rfl, halike.tick.detailed _⟩
          · exact ⟨rfl, halike.tick.detailed _⟩
          · exact ih halike.tick

theorem validate_alike : Both (validate env request left) (validate env request right) := by
  unfold validate
  by_cases hpaths : request.paths = []
  · rw [if_pos hpaths, if_pos hpaths]
    exact ⟨rfl, halike.detailed _⟩
  rw [if_neg hpaths, if_neg hpaths]
  by_cases hvolumes : request.srcVolume = [] ∨ request.dstVolume = []
  · rw [if_pos hvolumes, if_pos hvolumes]
    exact ⟨rfl, halike.detailed _⟩
  rw [if_neg hvolumes, if_neg hvolumes]
  cases normalize request.dstPath with
  | none => exact ⟨rfl, halike.detailed _⟩
  | some dstDir =>
    obtain ⟨hstatus, hchecked⟩ :
        Both (validatePaths env request dstDir request.paths left)
          (validatePaths env request dstDir request.paths right) :=
      validatePaths_alike halike dstDir request.paths
    dsimp only
    rw [hstatus, hchecked.fate, scan_alike (hchecked.destination request)]
    split
    · exact ⟨rfl, hchecked⟩
    · split
      · exact ⟨rfl, hchecked.tick⟩
      · rename_i failure _
        have hnoted := hchecked.tick.note failure
        rw [hnoted.detail]
        split_ifs
        · exact ⟨rfl, hnoted.detailed _⟩
        · exact ⟨rfl, hnoted⟩

theorem measurePath_alike (fuel : Nat) (dstDir raw : Bytes) :
    Option.Rel Session.Alike (measurePath env request fuel dstDir raw left)
      (measurePath env request fuel dstDir raw right) := by
  have hskips (path : Bytes) : skipsMeasure env request dstDir path left =
      skipsMeasure env request dstDir path right := by
    rw [skipsMeasure, skipsMeasure, halike.fate]
    simp only [stat_alike (halike.destination request)]
  unfold measurePath
  cases normalize raw with
  | none => exact .some halike
  | some path =>
    dsimp only
    rw [hskips]
    split_ifs
    · exact .some halike.tick
    · refine Worklist.map_coupled (measureEntry_alike halike.tick fuel path) ?_
      rintro ⟨_, left⟩ ⟨measure, right⟩ ⟨hmeasure, halike⟩
      obtain rfl : _ = measure := hmeasure
      dsimp only
      split
      · rw [halike.detail]
        exact halike.fail _ _ _
      · rename_i measure
        exact halike.reported fun report ↦
          { report with
            totalBytes := report.totalBytes + measure.bytes
            filesTotal := report.filesTotal + measure.files
            dirsTotal := report.dirsTotal + measure.dirs }

theorem deleteSource_alike (path : Bytes) (srcIsDir : Bool) :
    (deleteSource env request path srcIsDir left).Alike
      (deleteSource env request path srcIsDir right) := by
  obtain ⟨hanswer, hrest⟩ := remove_alike (halike.source request) (right.fate env) path
    srcIsDir
  have hleft := (halike.tick.setVolume request.srcVolume hrest).taken path
  unfold deleteSource
  dsimp only
  rw [halike.fate, hanswer]
  split
  · exact hleft.failed _ _ _
  · exact hleft.entryDeleted

theorem copyAndDelete_alike (fuel : Nat) (path target : Bytes) (srcIsDir : Bool) :
    Option.Rel Session.Alike (copyAndDelete env request fuel path target srcIsDir left)
      (copyAndDelete env request fuel path target srcIsDir right) := by
  refine Worklist.map_coupled (copyEntry_alike halike fuel path target srcIsDir) ?_
  rintro ⟨_, left⟩ ⟨complete, right⟩ ⟨hcomplete, halike⟩
  obtain rfl : _ = complete := hcomplete
  rw [halike.report]
  split_ifs
  · exact halike
  · exact deleteSource_alike (halike.current path) path srcIsDir
  · exact halike.current path

theorem transferTo_alike (fuel : Nat) (path target : Bytes) (srcIsDir : Bool) :
    Option.Rel Session.Alike (transferTo env request fuel path target srcIsDir left)
      (transferTo env request fuel path target srcIsDir right) := by
  unfold transferTo
  split_ifs
  · have hmade := mkdir_alike (halike.destination request) (right.fate env) target
    rw [halike.fate]
    generalize mkdir _ (left.destination request) target = made,
      mkdir _ (right.destination request) target = made' at hmade ⊢
    cases hmade with
    | error failure =>
      dsimp only
      split_ifs
      · exact copyAndDelete_alike halike.tick fuel path target srcIsDir
      · refine .some ?_
        rw [halike.detail]
        exact halike.tick.fail _ _ _
    | ok hmade =>
      exact copyAndDelete_alike ((halike.tick.setVolume _ hmade).copied _).dirDone fuel path target srcIsDir
  · exact copyAndDelete_alike halike fuel path target srcIsDir

theorem transferPath_alike (fuel : Nat) (dstDir raw : Bytes) :
    Option.Rel Session.Alike (transferPath env request fuel dstDir raw left)
      (transferPath env request fuel dstDir raw right) := by
  unfold transferPath
  cases normalize raw with
  | none => exact .some halike
  | some path =>
    dsimp only
    cases normalizeChild dstDir (basename path) with
    | none => exact .some (halike.fail _ _ _)
    | some target =>
      dsimp only
      rw [halike.fate, stat_alike (halike.source request), halike.tick.fate,
        stat_alike (halike.tick.destination request)]
      split
      · exact .some (halike.tick.failed _ _ _)
      · split
        · exact transferTo_alike halike.tick.tick fuel path target _
        · split_ifs
          · exact .some halike.tick.tick.entrySkipped
          · exact .some (halike.tick.tick.fail _ _ _)
          · exact transferTo_alike halike.tick.tick fuel path target _

theorem measurePaths_alike (fuel : Nat) (dstDir : Bytes) :
    Option.Rel Session.Alike (measurePaths env request fuel dstDir left)
      (measurePaths env request fuel dstDir right) :=
  Worklist.foldlM_coupled Session.Alike
    (fun raw _ _ halike ↦ measurePath_alike halike fuel dstDir raw) request.paths halike

theorem transferPaths_alike (fuel : Nat) (dstDir : Bytes) :
    Option.Rel Session.Alike (transferPaths env request fuel dstDir left)
      (transferPaths env request fuel dstDir right) := by
  refine Worklist.foldlM_coupled Session.Alike (fun raw left right halike ↦ ?_) request.paths halike
  rw [halike.report]
  split_ifs
  · exact .some halike
  · exact transferPath_alike halike fuel dstDir raw

theorem measureAndCopy_alike (fuel : Nat) (dstDir : Bytes) :
    Option.Rel Session.Alike (measureAndCopy env request fuel dstDir left)
      (measureAndCopy env request fuel dstDir right) := by
  refine Worklist.bind_coupled (measurePaths_alike halike fuel dstDir) fun left right halike ↦ ?_
  have hcompared : (left.tick.compared (env.free right.clock)).Alike
      (right.tick.compared (env.free right.clock)) :=
    halike.tick.reported fun report ↦
      { report with neededBytes := report.totalBytes, freeBytes := env.free right.clock }
  dsimp only
  rw [halike.clock, hcompared.report]
  split_ifs
  · exact .some (hcompared.fail _ _ _)
  · exact transferPaths_alike (hcompared.reported fun report ↦ { report with phase := .copying }) fuel dstDir

theorem Session.Alike.finish : left.finish.Alike right.finish :=
  halike.reported fun report ↦
    { report with busy := false, finished := true, phase := .done, current := [] }

end

theorem run_alike {volumes volumes' : Bytes → Tree}
    (hvolumes : ∀ volume, Files.Alike (volumes volume) (volumes' volume)) (fuel : Nat) :
    Option.Rel Session.Alike (run env request fuel volumes)
      (run env request fuel volumes') := by
  have hstart : (start request volumes).Alike (start request volumes') := ⟨hvolumes, rfl, rfl, rfl⟩
  obtain ⟨hstatus, hchecked⟩ :
      Both (validate env request (start request volumes))
        (validate env request (start request volumes')) :=
    validate_alike hstart
  unfold run
  dsimp only
  rw [hstatus]
  split
  · rw [hchecked.detail]
    exact .some (hchecked.fail _ _ _).finish
  · unfold runAccepted
    have hdirected := hchecked.reported fun report ↦
      { report with dstPath := (normalize request.dstPath).getD [slash] }
    split_ifs
    · exact .some (runInstant_alike (hdirected.reported fun report ↦ { report with instant := true })
        _ request.paths).finish
    · exact Worklist.map_coupled (measureAndCopy_alike hdirected fuel _) fun _ _ halike ↦ halike.finish

end DhcpServer.Files.TransferEngine
