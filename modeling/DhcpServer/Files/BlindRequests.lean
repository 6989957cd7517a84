import DhcpServer.Files.BlindTransfer
import DhcpServer.Files.FileRequests

/-!
# What the requests of the file explorer show

Two file managers whose volumes are alike answer every request in the same way, but for the two that read a
file: a download, and the text for the editor. These show the file they read and nothing else.
-/

namespace DhcpServer.Files

open Library Storage.PathUtil Web.Json Option FileManager

/-- Two file managers that differ in nothing but the bytes of files. -/
structure Explorer.Alike (left right : Explorer) : Prop where
  volumes : ∀ volume, Files.Alike (left.volumes volume) (right.volumes volume)
  transferState : left.transferState = right.transferState
  transferReq : left.transferReq = right.transferReq
  transferCancel : left.transferCancel = right.transferCancel

def BothServed (result result' : Response × Explorer) : Prop :=
  result.1 = result'.1 ∧ result.2.Alike result'.2

variable {moment : Moment} {left right : Explorer} {volume path : Option Bytes}

namespace Explorer.Alike

theorem setVolume (halike : left.Alike right) (volume : Bytes) {tree tree' : Tree}
    (htree : Files.Alike tree tree') : (left.setVolume volume tree).Alike (right.setVolume volume tree') := by
  refine ⟨fun other ↦ ?_, halike.transferState, halike.transferReq, halike.transferCancel⟩
  dsimp only [Explorer.setVolume]
  rw [Function.update_apply, Function.update_apply]
  split_ifs
  · exact htree
  · exact halike.volumes other

end Explorer.Alike

theorem handleGetFileList_alike (halike : left.Alike right) :
    handleGetFileList moment left volume path = handleGetFileList moment right volume path := by
  unfold handleGetFileList list
  cases volume with
  | none => rfl
  | some volume =>
    dsimp only
    rw [scan_alike (halike.volumes volume)]

def namesOf (path : Bytes) : List Bytes := (absolute path).getD []

variable {tree tree' : Tree}

theorem openRead_same (halike : Alike tree tree') (fate : Fate) {path : Bytes}
    (hsame : tree.read (namesOf path) = tree'.read (namesOf path)) :
    openRead fate tree path = openRead fate tree' path := by
  unfold openRead within
  split
  · rfl
  · split
    · rfl
    · rename_i names habs
      rw [namesOf, habs, getD_some, FileTree.read, FileTree.read] at hsame
      dsimp only
      split_ifs
      · rfl
      · rcases halike.find_cases names with ⟨hfind, hfind'⟩ | ⟨hfind, hfind'⟩ | ⟨_, _, hfind, hfind', -⟩
        · rw [hfind, hfind']
        · rw [hfind, hfind']
        · rw [hfind, hfind'] at hsame ⊢
          cases hsame
          rfl

theorem handleGetFileDownload_same (halike : left.Alike right)
    (hsame : ∀ name, volume = some name → (left.volumes name).read (namesOf (path.getD [slash])) =
        (right.volumes name).read (namesOf (path.getD [slash]))) :
    handleGetFileDownload moment left volume path = handleGetFileDownload moment right volume path := by
  unfold handleGetFileDownload
  cases volume with
  | none => rfl
  | some volume =>
    dsimp only
    rw [openRead_same (halike.volumes volume) _ (hsame volume rfl)]

theorem handleGetFileText_same (halike : left.Alike right)
    (hsame : ∀ name text, volume = some name → path = some text →
      (∀ content, (left.volumes name).read (namesOf text) = some content →
        content.length ≤ TextSaves.kMaxTextBytes) →
      (left.volumes name).read (namesOf text) = (right.volumes name).read (namesOf text)) :
    handleGetFileText moment left volume path = handleGetFileText moment right volume path := by
  unfold handleGetFileText
  cases volume with
  | none => rfl
  | some volume =>
    cases path with
    | none => rfl
    | some path =>
      dsimp only
      rw [← stat_alike (halike.volumes volume)]
      cases hstat : stat (moment.fate 0) (left.volumes volume) path with
      | error failure => rfl
      | ok info =>
        dsimp only
        by_cases hdir : info.isDir
        · rw [if_pos hdir, if_pos hdir]
        rw [if_neg hdir, if_neg hdir]
        by_cases hlarge : TextSaves.kMaxTextBytes < info.size
        · rw [if_pos hlarge, if_pos hlarge]
        rw [if_neg hlarge, if_neg hlarge, openRead_same (halike.volumes volume)]
        apply hsame volume path rfl rfl
        intro content hcontent
        obtain ⟨names, node, habs, hfind, rfl⟩ := stat_eq_ok hstat
        rw [namesOf, habs, getD_some, FileTree.read_eq_some_iff, hfind] at hcontent
        cases hcontent
        exact not_lt.mp hlarge

theorem partSize_alike (halike : Alike tree tree') (file : List Bytes) :
    partSize tree file = partSize tree' file := by
  rw [partSize, partSize, halike.read]

section

variable (halike : left.Alike right)
include halike

theorem handleGetFileUploadOffset_alike : handleGetFileUploadOffset moment left volume path =
      handleGetFileUploadOffset moment right volume path := by
  unfold handleGetFileUploadOffset uploadOffset
  cases volume with
  | none => rfl
  | some volume =>
    cases path with
    | none => rfl
    | some path => simp only [partSize_alike (halike.volumes volume)]

theorem handlePostFileMkdir_alike (body : Bytes) :
    BothServed (handlePostFileMkdir moment left body) (handlePostFileMkdir moment right body) := by
  have hmade := mkdir_alike (halike.volumes (jsonGetStr body (ascii "volume"))) (moment.fate 0)
    (jsonGetStr body (ascii "path"))
  unfold handlePostFileMkdir
  dsimp only
  generalize mkdir _ (left.volumes _) _ = made,
    mkdir _ (right.volumes _) _ = made' at hmade ⊢
  cases hmade with
  | error failure => exact ⟨rfl, halike⟩
  | ok hmade => exact ⟨rfl, halike.setVolume _ hmade⟩

theorem handlePostFileRename_alike (body : Bytes) :
    BothServed (handlePostFileRename moment left body) (handlePostFileRename moment right body) := by
  have hmoved := rename_alike (halike.volumes (jsonGetStr body (ascii "volume"))) (moment.fate 0)
    (jsonGetStr body (ascii "path")) (jsonGetStr body (ascii "to"))
  unfold handlePostFileRename
  dsimp only
  generalize rename _ (left.volumes _) _ _ = moved,
    rename _ (right.volumes _) _ _ = moved' at hmoved ⊢
  cases hmoved with
  | error failure => exact ⟨rfl, halike⟩
  | ok hmoved => exact ⟨rfl, halike.setVolume _ hmoved⟩

theorem handlePostFileDelete_alike (body : Bytes) :
    BothServed (handlePostFileDelete moment left body) (handlePostFileDelete moment right body) := by
  obtain ⟨hanswer, hrest⟩ := remove_alike (halike.volumes (jsonGetStr body (ascii "volume")))
    (moment.fate 0) (jsonGetStr body (ascii "path")) (jsonGetBool body (ascii "recursive") false)
  unfold handlePostFileDelete
  dsimp only
  rw [hanswer]
  exact ⟨rfl, halike.setVolume _ hrest⟩

theorem handlePostFileUploadCancel_alike : BothServed (handlePostFileUploadCancel moment left volume path)
      (handlePostFileUploadCancel moment right volume path) := by
  unfold handlePostFileUploadCancel
  cases volume with
  | none => exact ⟨rfl, halike⟩
  | some volume =>
    cases path with
    | none => exact ⟨rfl, halike⟩
    | some path =>
      have hleft : BothAnswer Alike (discardUpload moment.calls (left.volumes volume) path)
          (discardUpload moment.calls (right.volumes volume) path) := by
        refine within_both _ path fun names ↦ ?_
        have hrest := (halike.volumes volume).unlink (FileSink.partOf names)
        simp only [(halike.volumes volume).find_none]
        generalize (left.volumes volume).unlink _ = rest, (right.volumes volume).unlink _ = rest' at hrest ⊢
        split_ifs
        · exact .ok (halike.volumes volume)
        · cases (moment.calls.fate 1).refused with
          | some status => exact .error _
          | none =>
            cases hrest with
            | none => exact .error _
            | some hrest => exact .ok hrest
      dsimp only
      generalize discardUpload _ (left.volumes volume) path = rest,
        discardUpload _ (right.volumes volume) path = rest' at hleft ⊢
      cases hleft with
      | error failure => exact ⟨rfl, halike⟩
      | ok hrest => exact ⟨rfl, halike.setVolume _ hrest⟩

end

theorem FileSink.openAt_alike (halike : Alike tree tree') (file : List Bytes)
    (initialSize : Nat) :
    Option.Rel (fun opened opened' ↦ opened.1 = opened'.1 ∧ Alike opened.2 opened'.2)
      (openAt tree file initialSize) (openAt tree' file initialSize) := by
  have hread : (tree.read (partOf file)).isSome = (tree'.read (partOf file)).isSome := by
    rw [← isSome_map, halike.read, isSome_map]
  unfold openAt
  rw [hread]
  split_ifs
  · exact .some ⟨rfl, halike⟩
  · exact create_alike halike file

theorem openWrite_alike (halike : Alike tree tree') (calls : Calls)
    (freeBytes : Nat) (path : Bytes) (offset totalLen chunkLen : Nat) :
    BothAnswer (fun opened opened' ↦ opened.1 = opened'.1 ∧ opened.2.1 = opened'.2.1 ∧
        Alike opened.2.2 opened'.2.2)
      (openWrite calls freeBytes tree path offset totalLen chunkLen)
      (openWrite calls freeBytes tree' path offset totalLen chunkLen) := by
  refine within_both _ path fun names ↦ ?_
  simp only [halike.find_dir, partSize_alike halike]
  by_cases hroot : names = []
  · rw [if_pos hroot, if_pos hroot]
    exact .error _
  rw [if_neg hroot, if_neg hroot]
  by_cases hdir : tree'.find names = some .dir
  · rw [if_pos hdir, if_pos hdir]
    exact .error _
  rw [if_neg hdir, if_neg hdir]
  split
  · exact .error _
  · rename_i range _
    by_cases hfree : freeBytes < range.neededBytes + TransferEngine.kFreeSpaceReserve
    · rw [if_pos hfree, if_pos hfree]
      exact .error _
    rw [if_neg hfree, if_neg hfree]
    have hopened := FileSink.openAt_alike halike names range.offset
    generalize FileSink.openAt tree names range.offset = opened,
      FileSink.openAt tree' names range.offset = opened' at hopened ⊢
    cases (calls.fate 1).refused with
    | some status => exact .error _
    | none =>
      cases hopened with
      | none => exact .error _
      | some hopened => exact .ok ⟨hopened.1, rfl, hopened.2⟩

theorem saveText_alike (halike : left.Alike right) (volume path text : Bytes) :
    BothServed (saveText moment left volume path text) (saveText moment right volume path text) := by
  have hopened := openWrite_alike (halike.volumes volume) (moment.calls.from 1)
    (moment.freeBytes volume) path 0 0 text.length
  unfold saveText
  generalize openWrite _ _ (left.volumes volume) path 0 0 text.length = opened,
    openWrite _ _ (right.volumes volume) path 0 0 text.length = opened' at hopened ⊢
  cases hopened with
  | error failure => exact ⟨rfl, halike⟩
  | @ok opened opened' hopened =>
    obtain ⟨sink, range, tree⟩ := opened
    obtain ⟨_, _, tree'⟩ := opened'
    obtain ⟨rfl, -, htree⟩ := hopened
    have hwritten : Option.Rel Alike (if text = [] then some tree else sink.write (moment.fate 3) tree text)
        (if text = [] then some tree' else sink.write (moment.fate 3) tree' text) := by
      split_ifs
      · exact .some htree
      · exact sink.write_alike htree _ rfl
    dsimp only
    generalize (if text = [] then some tree else sink.write (moment.fate 3) tree text) = written,
      (if text = [] then some tree' else sink.write (moment.fate 3) tree' text) = written' at hwritten ⊢
    cases hwritten with
    | none => exact ⟨rfl, halike.setVolume volume (sink.abort_alike htree _)⟩
    | some hwritten =>
      obtain ⟨hdone, hleft⟩ := sink.commit_alike hwritten (moment.fate 4) (moment.fate 5) (moment.fate 6)
        (moment.fate 7)
      dsimp only
      rw [hdone, stat_alike hleft]
      split_ifs
      · exact ⟨rfl, halike.setVolume volume hleft⟩
      · exact ⟨rfl, halike.setVolume volume hleft⟩
      · exact ⟨rfl, halike.setVolume volume hleft⟩

theorem handlePostFileText_alike (halike : left.Alike right) (body : Bytes) :
    BothServed (handlePostFileText moment left body) (handlePostFileText moment right body) := by
  unfold handlePostFileText
  split
  · exact ⟨rfl, halike⟩
  · exact ⟨rfl, halike⟩
  · exact ⟨rfl, halike⟩
  · rename_i save _
    dsimp only
    rw [stat_alike (halike.volumes _)]
    split
    · exact saveText_alike halike _ _ _
    · split_ifs
      · exact ⟨rfl, halike⟩
      · exact ⟨rfl, halike⟩
      · exact saveText_alike halike _ _ _

theorem receive_alike (sink : FileSink) (remaining : Nat) (windows : List Window) (written : Nat)
    (halike : Alike tree tree') :
    (receive sink remaining windows written tree).1 = (receive sink remaining windows written tree').1 ∧
      (receive sink remaining windows written tree).2.1 =
        (receive sink remaining windows written tree').2.1 ∧
      Alike (receive sink remaining windows written tree).2.2
        (receive sink remaining windows written tree').2.2 := by
  induction windows generalizing remaining written tree tree' with
  | nil =>
    cases remaining with
    | zero => exact ⟨rfl, rfl, halike⟩
    | succ remaining => exact ⟨rfl, rfl, halike⟩
  | cons window windows ih =>
    cases remaining with
    | zero => exact ⟨rfl, rfl, halike⟩
    | succ remaining =>
      rw [receive, receive]
      by_cases hdata : window.data.take (remaining + 1) = []
      · rw [if_pos hdata, if_pos hdata]
        exact ⟨rfl, rfl, halike⟩
      rw [if_neg hdata, if_neg hdata]
      have hwritten : Option.Rel Alike (sink.write window.fate tree (window.data.take (remaining + 1)))
          (sink.write window.fate tree' (window.data.take (remaining + 1))) :=
        sink.write_alike halike window.fate rfl
      generalize sink.write window.fate tree _ = next, sink.write window.fate tree' _ = next' at hwritten ⊢
      cases hwritten with
      | none =>
        refine ⟨rfl, rfl, ?_⟩
        have hpart : Option.Rel Alike (sink.write {} tree ((window.data.take (remaining + 1)).take window.reach))
            (sink.write {} tree' ((window.data.take (remaining + 1)).take window.reach)) :=
          sink.write_alike halike {} rfl
        generalize sink.write {} tree _ = next, sink.write {} tree' _ = next' at hpart ⊢
        cases hpart with
        | none => exact halike
        | some hpart => exact hpart
      | some hnext =>
        split_ifs
        · exact ⟨rfl, rfl, hnext⟩
        · exact ih _ _ hnext

theorem finishUpload_alike (path : Bytes) (sink : FileSink) (range : UploadRange) (ending : Received)
    (written : Nat) (halike : Alike tree tree') :
    (finishUpload moment path sink range (ending, written, tree)).1 =
        (finishUpload moment path sink range (ending, written, tree')).1 ∧
      Alike (finishUpload moment path sink range (ending, written, tree)).2
        (finishUpload moment path sink range (ending, written, tree')).2 := by
  obtain ⟨hdone, hleft⟩ := sink.commit_alike halike (moment.fate 2) (moment.fate 3) (moment.fate 4)
    (moment.fate 5)
  unfold finishUpload
  dsimp only
  rw [hdone]
  split_ifs
  · exact ⟨rfl, sink.abort_alike halike _⟩
  · exact ⟨rfl, halike⟩
  · exact ⟨rfl, sink.abort_alike halike _⟩
  · exact ⟨rfl, hleft⟩
  · exact ⟨rfl, hleft⟩

theorem uploadTask_alike (halike : left.Alike right) (volume path : Bytes) (offset total chunk : Nat) :
    BothServed (uploadTask moment left volume path offset total chunk)
      (uploadTask moment right volume path offset total chunk) := by
  have hopened := openWrite_alike (halike.volumes volume) moment.calls (moment.freeBytes volume)
    path offset total chunk
  unfold uploadTask
  generalize openWrite _ _ (left.volumes volume) path offset total chunk = opened,
    openWrite _ _ (right.volumes volume) path offset total chunk = opened' at hopened ⊢
  cases hopened with
  | error failure => exact ⟨rfl, halike⟩
  | @ok opened opened' hopened =>
    obtain ⟨sink, range, tree⟩ := opened
    obtain ⟨_, _, tree'⟩ := opened'
    obtain ⟨rfl, rfl, htree⟩ := hopened
    have hreceived := receive_alike sink chunk moment.windows range.offset htree
    dsimp only
    generalize receive sink chunk moment.windows range.offset tree = received,
      receive sink chunk moment.windows range.offset tree' = received' at hreceived ⊢
    obtain ⟨ending, written, tree⟩ := received
    obtain ⟨_, _, tree'⟩ := received'
    obtain ⟨rfl, rfl, hleft⟩ := hreceived
    obtain ⟨hanswer, hleft⟩ :
        (finishUpload moment path sink range (ending, written, tree)).1 =
            (finishUpload moment path sink range (ending, written, tree')).1 ∧
          Alike (finishUpload moment path sink range (ending, written, tree)).2
            (finishUpload moment path sink range (ending, written, tree')).2 :=
      finishUpload_alike path sink range ending written hleft
    exact ⟨hanswer, halike.setVolume volume hleft⟩

theorem handlePostFileUpload_alike (halike : left.Alike right) (offset total : Option Nat)
    (contentLength : Nat) :
    BothServed (handlePostFileUpload moment left volume path offset total contentLength)
      (handlePostFileUpload moment right volume path offset total contentLength) := by
  unfold handlePostFileUpload
  split
  · exact ⟨rfl, halike⟩
  · exact ⟨rfl, halike⟩
  · split_ifs
    · exact ⟨rfl, halike⟩
    · exact ⟨rfl, halike⟩
    · split
      · exact ⟨rfl, halike⟩
      · exact uploadTask_alike halike _ _ _ _ _

namespace TransferEngine

variable {env : Environment} {request : TransferRequest}

theorem takenNames_alike {session session' : Session} (halike : session.Alike session') (dstDir : Bytes)
    (paths : List Bytes) :
    takenNames env request dstDir paths session =
      takenNames env request dstDir paths session' := by
  induction paths generalizing session session' with
  | nil => rfl
  | cons raw paths ih =>
    rw [takenNames, takenNames]
    cases normalize raw with
    | none => exact ih halike
    | some path =>
      dsimp only
      cases normalizeChild dstDir (basename path) with
      | none => exact ih halike
      | some target =>
        dsimp only
        rw [halike.fate, stat_alike (halike.destination request), ih halike.tick]

theorem conflicts_alike {volumes volumes' : Bytes → Tree}
    (hvolumes : ∀ volume, Files.Alike (volumes volume) (volumes' volume)) :
    conflicts env request volumes = conflicts env request volumes' := by
  have hstart : (start request volumes).Alike (start request volumes') := ⟨hvolumes, rfl, rfl, rfl⟩
  obtain ⟨hstatus, hchecked⟩ :
      Both (validate env request (start request volumes))
        (validate env request (start request volumes')) :=
    validate_alike hstart
  unfold conflicts
  dsimp only
  rw [hstatus, hchecked.detail, takenNames_alike hchecked]

end TransferEngine

section

variable (halike : left.Alike right)
include halike

theorem transferStart_alike (calls : Calls)
    (request : TransferEngine.TransferRequest) :
    (transferStart calls left request).1 = (transferStart calls right request).1 ∧
      (transferStart calls left request).2.Alike
        (transferStart calls right request).2 := by
  unfold transferStart
  split
  · exact ⟨rfl, halike⟩
  · exact ⟨rfl, halike⟩
  · rw [halike.transferReq]
    split_ifs
    · exact ⟨rfl, halike⟩
    · exact ⟨rfl, halike.volumes, rfl, rfl, rfl⟩
    · exact ⟨rfl, halike.volumes, rfl, rfl, rfl⟩

theorem handlePostFileTransfer_alike (env : TransferEngine.Environment)
    (request : TransferEngine.TransferRequest) :
    BothServed (handlePostFileTransfer moment env left request)
      (handlePostFileTransfer moment env right request) := by
  obtain ⟨hanswer, hstarted⟩ := transferStart_alike halike moment.calls request
  unfold handlePostFileTransfer
  rw [TransferEngine.conflicts_alike halike.volumes]
  split
  · exact ⟨rfl, halike⟩
  · split_ifs
    · exact ⟨rfl, halike⟩
    · dsimp only
      rw [hanswer]
      exact ⟨rfl, hstarted⟩

theorem handlePostFileTransferCancel_alike :
    BothServed (handlePostFileTransferCancel left) (handlePostFileTransferCancel right) := by
  refine ⟨rfl, ?_⟩
  unfold handlePostFileTransferCancel
  rw [halike.transferState]
  split_ifs
  · exact ⟨halike.volumes, rfl, halike.transferReq, rfl⟩
  · exact halike

theorem transferTask_alike (env : TransferEngine.Environment) (fuel : Nat) :
    Option.Rel Explorer.Alike (transferTask env fuel left) (transferTask env fuel right) := by
  unfold transferTask
  rw [halike.transferReq, halike.transferCancel]
  cases right.transferReq with
  | none => exact .none
  | some request =>
    rw [bind_eq_bind, bind_some, bind_some]
    refine Worklist.bind_coupled (TransferEngine.run_alike halike.volumes fuel) fun session session' hrun ↦ ?_
    exact .some ⟨hrun.volumes, hrun.report, rfl, rfl⟩

end

end DhcpServer.Files
