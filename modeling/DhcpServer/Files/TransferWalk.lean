import DhcpServer.Files.TransferEngine

/-!
# What the walks of a transfer do

One lemma per function of the engine says what it can do to the volumes and to the report, and from
these follow the rules for a walk. The paths of a walk are texts of lists of names: a directory of the
walk lies below the selected entry, and its pair lies at the same place below the destination.
-/

namespace DhcpServer.Files.TransferEngine

open Library Storage.PathUtil List Function FileManager

variable {env : Environment} {request : TransferRequest}

theorem destination_of_update {session session' : Session} {tree : Tree}
    (hvolumes : session'.volumes = update session.volumes request.dstVolume tree) :
    session'.destination request = tree := by
  rw [Session.destination, hvolumes, update_self]

structure Wrote (request : TransferRequest) (touched made : List Bytes → Prop)
    (session session' : Session) : Prop where
  others : ∀ volume, volume ≠ request.dstVolume → session'.volumes volume = session.volumes volume
  grows : (session.destination request).Grows touched made (session'.destination request)

namespace Wrote

variable {touched made wider more : List Bytes → Prop} {session session' later : Session} {tree : Tree}

theorem of_volumes (hvolumes : session'.volumes = session.volumes) :
    Wrote request touched made session session' where
  others _ _ := by rw [hvolumes]
  grows := by
    rw [Session.destination, Session.destination, hvolumes]
    exact .refl _ _ _

theorem of_update (hgrows : (session.destination request).Grows touched made tree)
    (hvolumes : session'.volumes = update session.volumes request.dstVolume tree) :
    Wrote request touched made session session' where
  others volume hvolume := by rw [hvolumes, update_of_ne hvolume]
  grows := by
    rw [destination_of_update hvolumes]
    exact hgrows

theorem trans (hfirst : Wrote request touched made session session')
    (hsecond : Wrote request touched made session' later) :
    Wrote request touched made session later where
  others volume hvolume := (hsecond.others volume hvolume).trans (hfirst.others volume hvolume)
  grows := hfirst.grows.trans hsecond.grows

theorem mono (hwrote : Wrote request touched made session session')
    (hwider : ∀ path, touched path → wider path) (hmore : ∀ path, made path → more path) :
    Wrote request wider more session session' :=
  ⟨hwrote.others, hwrote.grows.mono hwider hmore⟩

theorem source_eq (hwrote : Wrote request touched made session session')
    (hvolumes : request.srcVolume ≠ request.dstVolume) :
    session'.source request = session.source request :=
  hwrote.others request.srcVolume hvolumes

end Wrote

/-! ## The report -/

/-- Nothing has failed or been skipped, and nobody has asked to stop. -/
def Session.Clean (session : Session) : Prop :=
  session.report.failed = 0 ∧ session.report.skipped = 0 ∧ session.report.cancelled = false

instance (session : Session) : Decidable session.Clean := inferInstanceAs (Decidable (_ ∧ _))

instance : Add Measure :=
  ⟨fun left right ↦ ⟨left.bytes + right.bytes, left.files + right.files, left.dirs + right.dirs⟩⟩

theorem Measure.add_assoc (left middle right : Measure) :
    left + middle + right = left + (middle + right) := by
  rw [Measure.mk.injEq]
  exact ⟨Nat.add_assoc _ _ _, Nat.add_assoc _ _ _, Nat.add_assoc _ _ _⟩

namespace Session

def done (session : Session) : Measure :=
  ⟨session.report.doneBytes, session.report.filesDone, session.report.dirsDone⟩

def total (session : Session) : Measure :=
  ⟨session.report.totalBytes, session.report.filesTotal, session.report.dirsTotal⟩

end Session

structure Counted (more : Measure) (session session' : Session) : Prop where
  done : session'.done = session.done + more
  total : session'.total = session.total
  clean : session'.Clean → session.Clean

theorem Counted.trans {more further : Measure} {session session' later : Session}
    (hfirst : Counted more session session') (hsecond : Counted further session' later) :
    Counted (more + further) session later where
  done := by rw [hsecond.done, hfirst.done, Measure.add_assoc]
  total := hsecond.total.trans hfirst.total
  clean hclean := hfirst.clean (hsecond.clean hclean)

theorem not_clean_fail (session : Session) (path : Bytes) (status : FileStatus) (why : Bytes) :
    ¬(session.fail path status why).Clean := by
  rintro ⟨hfailed, -, -⟩
  unfold Session.fail at hfailed
  dsimp only at hfailed
  split_ifs at hfailed

theorem cancelRequested_cases (env : Environment) (session : Session) : session.cancelRequested env =
        (true, { session.tick with report := { session.report with cancelled := true } }) ∨
      session.cancelRequested env = (false, session.tick) := by
  unfold Session.cancelRequested
  split_ifs
  · exact .inl rfl
  · exact .inr rfl

/-! ## A file -/

structure ChunksOutcome (request : TransferRequest) (sink : FileSink) (content rest : Bytes)
    (session : Session) (answer : Bool × Session) : Prop where
  wrote : Wrote request sink.Touches (fun _ ↦ False) session answer.2
  walks : answer.2.walks = session.walks
  copies : answer.2.copies = session.copies
  complete : answer.1 = true →
    (answer.2.destination request).find sink.finalPath = some (.file (content ++ rest)) ∧
      answer.2.report = { session.report with
        doneBytes := session.report.doneBytes + rest.length
        filesDone := session.report.filesDone + 1 }
  incomplete : answer.1 = false → ¬answer.2.Clean

theorem ChunksOutcome.failed {sink : FileSink} {content rest : Bytes} {session after : Session}
    (hwrote : Wrote request sink.Touches (fun _ ↦ False) session after)
    (hwalks : after.walks = session.walks) (hcopies : after.copies = session.copies)
    (hclean : ¬after.Clean) : ChunksOutcome request sink content rest session (false, after) where
  wrote := hwrote
  walks := hwalks
  copies := hcopies
  complete := by rintro ⟨⟩
  incomplete _ := hclean

variable {answer : Bool × Session}

theorem ChunksOutcome.continued {sink : FileSink} {content chunk : Bytes} {chunks : List Bytes}
    {session after : Session}
    (hwrote : Wrote request sink.Touches (fun _ ↦ False) session after) (hwalks : after.walks = session.walks)
    (hcopies : after.copies = session.copies)
    (hreport : after.report = { session.report with
      doneBytes := session.report.doneBytes + chunk.length })
    (hrest : ChunksOutcome request sink (content ++ chunk) chunks.flatten after answer) :
    ChunksOutcome request sink content (chunk :: chunks).flatten session answer where
  wrote := hwrote.trans hrest.wrote
  walks := hrest.walks.trans hwalks
  copies := hrest.copies.trans hcopies
  complete hcomplete := by
    obtain ⟨hfile, hdone⟩ := hrest.complete hcomplete
    rw [flatten_cons, ← append_assoc, hdone, hreport, length_append, ← Nat.add_assoc]
    exact ⟨hfile, rfl⟩
  incomplete := hrest.incomplete

section Chunks

variable {sink : FileSink} {src : Bytes} {content : Bytes} {session : Session} {chunks : List Bytes}

theorem copyChunks_outcome (hne : sink.partPath ≠ sink.finalPath)
    (hpart : (session.destination request).find sink.partPath = some (.file content)) :
    ChunksOutcome request sink content chunks.flatten session
      (copyChunks env request sink src chunks session) := by
  induction chunks generalizing session content with
  | nil =>
    rw [copyChunks]
    split_ifs
    · exact .failed (.of_update (sink.abort_grows _ _) rfl) rfl rfl (not_clean_fail _ _ _ _)
    · dsimp only
      split_ifs with hcommitted
      · refine ⟨.of_update (FileSink.commit_grows hpart hne) rfl, rfl, rfl, fun _ ↦ ⟨?_, rfl⟩, ?_⟩
        · rw [destination_of_update rfl, flatten_nil, append_nil]
          exact FileSink.commit_complete hpart hne hcommitted
        · rintro ⟨⟩
      · exact .failed (.of_update (FileSink.commit_grows hpart hne) rfl) rfl rfl
          (not_clean_fail _ _ _ _)
  | cons chunk chunks ih =>
    rw [copyChunks]
    split_ifs
    · exact .failed (.of_update (sink.abort_grows _ _) rfl) rfl rfl (not_clean_fail _ _ _ _)
    · dsimp only
      split
      case h_1 => exact .failed (.of_update (sink.abort_grows _ _) rfl) rfl rfl (not_clean_fail _ _ _ _)
      case h_2 written hwrite =>
        have hwrote : Wrote request sink.Touches (fun _ ↦ False) session
            ((session.tick.tick.setVolume request.dstVolume written).received chunk.length).tick :=
          .of_update (FileSink.write_grows hwrite) rfl
        rcases cancelRequested_cases env
          ((session.tick.tick.setVolume request.dstVolume written).received chunk.length)
          with hstop | hgo
        · rw [hstop, if_pos rfl]
          have hcancelled : ∀ later : Session, later.report.cancelled = true → ¬later.Clean := by
            rintro later hlater ⟨-, -, hnot⟩
            rw [hlater] at hnot
            cases hnot
          exact .failed (hwrote.trans (.of_update (sink.abort_grows _ _) rfl)) rfl rfl
            (hcancelled _ rfl)
        · rw [hgo, if_neg Bool.false_ne_true]
          have hread : written.find sink.partPath = some (.file (content ++ chunk)) :=
            FileSink.write_read hwrite hpart
          refine .continued hwrote rfl rfl rfl (ih ?_)
          rw [destination_of_update rfl]
          exact hread

end Chunks

/-- What copying a file comes to, on the names of its paths. -/
structure FileOutcome (request : TransferRequest) (source target : List Bytes) (session : Session)
    (answer : Bool × Session) : Prop where
  wrote : Wrote request (fun path ↦
      (∃ content, (session.source request).find source = some (.file content)) ∧
        (path = target ∨ path = FileSink.partOf target)) (fun _ ↦ False) session answer.2
  walks : answer.2.walks = session.walks
  copies : answer.2.copies =
    session.copies ++ if answer.1 then [⟨buildPath source, buildPath target⟩] else []
  complete : answer.1 = true → ∃ content,
    (session.source request).find source = some (.file content) ∧
      (answer.2.destination request).find target = some (.file content) ∧
        Counted ⟨content.length, 1, 0⟩ session answer.2
  incomplete : answer.1 = false → ¬answer.2.Clean

variable {source target : List Bytes} {session after : Session}

theorem FileOutcome.refused (hvolumes : after.volumes = session.volumes)
    (hwalks : after.walks = session.walks) (hcopies : after.copies = session.copies)
    (hclean : ¬after.Clean) : FileOutcome request source target session (false, after) where
  wrote := .of_volumes hvolumes
  walks := hwalks
  copies := by simp [hcopies]
  complete := by rintro ⟨⟩
  incomplete _ := hclean

theorem FileOutcome.opened {content : Bytes}
    (hfile : (session.source request).find source = some (.file content))
    (hwrote : Wrote request (FileSink.Touches ⟨target, FileSink.partOf target⟩) (fun _ ↦ False) session
      after)
    (hwalks : after.walks = session.walks) (hcopies : after.copies = session.copies)
    (hreport : after.report = { session.report with current := after.report.current })
    (hchunks : ChunksOutcome request ⟨target, FileSink.partOf target⟩ [] content after answer) :
    FileOutcome request source target session
      (answer.1, if answer.1 then answer.2.copied ⟨buildPath source, buildPath target⟩ else answer.2) := by
  have hall : Wrote request (fun path ↦
      (∃ content, (session.source request).find source = some (.file content)) ∧
        (path = target ∨ path = FileSink.partOf target)) (fun _ ↦ False) session answer.2 :=
    (hwrote.trans hchunks.wrote).mono (fun path htouched ↦ ⟨⟨content, hfile⟩, htouched⟩)
      fun _ hfalse ↦ hfalse
  cases hcomplete : answer.1 with
  | false =>
    exact ⟨hall, hchunks.walks.trans hwalks, by simp [hchunks.copies, hcopies], by rintro ⟨⟩,
      fun _ ↦ hchunks.incomplete hcomplete⟩
  | true =>
    obtain ⟨hfind, hdone⟩ := hchunks.complete hcomplete
    rw [if_pos rfl]
    refine ⟨hall.trans (.of_volumes rfl), hchunks.walks.trans hwalks, ?_,
      fun _ ↦ ⟨content, hfile, hfind, ?_⟩, by rintro ⟨⟩⟩
    · rw [if_pos rfl, Session.copied, hchunks.copies, hcopies]
    · rw [hreport] at hdone
      refine ⟨?_, ?_, ?_⟩
      · rw [Session.done, Session.copied, hdone]
        rfl
      · rw [Session.total, Session.copied, hdone]
        rfl
      · rw [Session.Clean, Session.copied, hdone]
        exact id

theorem FileOutcome.of_visiting {pair : DirPair} {entry : FileEntry}
    (houtcome : FileOutcome request source target (session.visiting pair entry) answer) :
    FileOutcome request source target session answer where
  wrote := ⟨houtcome.wrote.others, houtcome.wrote.grows⟩
  walks := houtcome.walks
  copies := houtcome.copies
  complete hcomplete := by
    obtain ⟨content, hfind, hthere, hcounted⟩ := houtcome.complete hcomplete
    exact ⟨content, hfind, hthere, hcounted.done, hcounted.total, hcounted.clean⟩
  incomplete := houtcome.incomplete

theorem statNoted_eq (env : Environment) (request : TransferRequest) (session : Session)
    (src : Bytes) :
    ∃ detail, statNoted env request session src = { session.tick with detail } := by
  unfold statNoted
  split
  case h_1 failure _ => exact ⟨failure.detail.getD session.detail, rfl⟩
  case h_2 => exact ⟨session.detail, rfl⟩

theorem copyFile_outcome (env : Environment) (request : TransferRequest)
    (hsource : ∀ name ∈ source, EntryName name) (htarget : Addressable target) (session : Session) :
    FileOutcome request source target session
      (copyFile env request (buildPath source) (buildPath target)
        (session.current (buildPath source))) := by
  unfold copyFile
  split_ifs
  · exact .refused rfl rfl rfl (not_clean_fail _ _ _ _)
  · obtain ⟨detail, hdetail⟩ := statNoted_eq env request
      (session.current (buildPath source)) (buildPath source)
    dsimp only
    rw [hdetail]
    split
    case h_1 => exact .refused rfl rfl rfl (not_clean_fail _ _ _ _)
    case h_2 content hopen =>
      obtain ⟨names, habs, hfile⟩ := openRead_eq_ok hopen
      obtain ⟨rfl, -⟩ := absolute_buildPath_eq hsource habs
      split
      case h_1 => exact .refused rfl rfl rfl (not_clean_fail _ _ _ _)
      case h_2 sink opened hcreate =>
        obtain ⟨names, habs, hroot, hcreate⟩ := createWriter_eq_ok hcreate
        rw [absolute_buildPath htarget] at habs
        cases habs
        obtain ⟨rfl, hwrite⟩ := FileSink.create_spec hcreate
        have hwrote : Wrote request (FileSink.Touches ⟨target, FileSink.partOf target⟩) (fun _ ↦ False)
            session ({ (session.current (buildPath source)).tick with detail }.tick.tick.setVolume
              request.dstVolume opened) :=
          .of_update (.of_write hwrite (.inr rfl)) rfl
        have hpart : opened.find (FileSink.partOf target) = some (.file []) := by
          rw [(FileTree.write_spec hwrite).2, if_pos rfl]
        refine .opened hfile hwrote rfl rfl rfl ?_
        nth_rewrite 1 [← flatten_windows content]
        refine copyChunks_outcome (FileSink.partOf_ne hroot) ?_
        rw [destination_of_update rfl]
        exact hpart

def Environment.Calm (env : Environment) : Prop := ∀ moment, (env.fate moment).refused = none

def calm : Environment where
  free _ := 1000000

/-- A place below the selected entry and the same place below its target. -/
def pairAt (source target rest : List Bytes) : DirPair :=
  ⟨buildPath (source ++ rest), buildPath (target ++ rest)⟩

theorem joinRel_buildPath {dir : List Bytes} (hnames : ∀ name ∈ dir, EntryName name) (name : Bytes) :
    joinRel (buildPath dir) name = buildPath (dir ++ [name]) := by
  rw [buildPath_concat, joinRel, buildPath]
  cases dir with
  | nil => rfl
  | cons first rest =>
    have hfirst := (hnames first mem_cons_self).ne_nil
    have hlong : joined slash (first :: rest) ≠ [slash] := by simp [hfirst]
    rw [if_neg (cons_ne_nil first rest), if_neg hlong]

inductive EntryStep (env : Environment) (request : TransferRequest)
    (source target rest : List Bytes) (entry : FileEntry) (visit : Visit) : Visit → Prop
  /-- the name cannot be used, or the directory cannot be made -/
  | failed (after : Session) (hvolumes : after.volumes = visit.session.volumes)
      (hwalks : after.walks = visit.session.walks) (hcopies : after.copies = visit.session.copies)
      (hclean : ¬after.Clean) :
      EntryStep env request source target rest entry visit
        { visit with session := after, ok := false }
  /-- the directory has been made, or something has its name already -/
  | entered (after : Session) (hdir : entry.isDir = true)
      (haddr : Addressable (target ++ (rest ++ [entry.name])))
      (hwrote : Wrote request (fun _ ↦ False) (· = target ++ (rest ++ [entry.name])) visit.session after)
      (hwalks : after.walks = visit.session.walks)
      (hcopies : ∀ pair ∈ after.copies,
        pair ∈ visit.session.copies ∨ pair = pairAt source target (rest ++ [entry.name]))
      (hcounted : Counted ⟨0, 0, 1⟩ visit.session after)
      (hthere : env.Calm → (after.destination request).find (target ++ (rest ++ [entry.name])) ≠ none) :
      EntryStep env request source target rest entry visit
        { visit with
          session := after
          found := visit.found ++ [pairAt source target (rest ++ [entry.name])] }
  | file (answer : Bool × Session) (hdir : entry.isDir = false)
      (haddr : Addressable (target ++ (rest ++ [entry.name])))
      (houtcome : FileOutcome request (source ++ (rest ++ [entry.name]))
        (target ++ (rest ++ [entry.name])) visit.session answer) :
      EntryStep env request source target rest entry visit
        { visit with session := answer.2, ok := visit.ok && answer.1 }

theorem visitEntry_step (env : Environment) (request : TransferRequest) {rest : List Bytes}
    (hsource : ∀ name ∈ source ++ rest, EntryName name)
    (htarget : Addressable (target ++ rest)) (visit : Visit) (entry : FileEntry) :
    EntryStep env request source target rest entry visit
      (visitEntry env request (pairAt source target rest) visit entry) := by
  have hjoin : joinRel (buildPath (source ++ rest)) entry.name =
      buildPath (source ++ (rest ++ [entry.name])) := by
    rw [joinRel_buildPath hsource, append_assoc]
  rw [visitEntry, pairAt]
  rw [normalizeChild_buildPath htarget, hjoin, append_assoc target]
  by_cases haddr : Addressable (target ++ (rest ++ [entry.name]))
  · have hchild : ∀ name ∈ source ++ (rest ++ [entry.name]), EntryName name := by
      intro name hmem
      rw [← append_assoc] at hmem
      rcases mem_append.mp hmem with hold | hnew
      · exact hsource name hold
      · rw [mem_singleton.mp hnew]
        exact (validName_of_isValidName (haddr.names _ (by simp))).entryName
    have habs := absolute_buildPath haddr
    rw [if_pos haddr]
    dsimp only
    split_ifs with hdir
    · split
      case h_1 made hmkdir =>
        obtain ⟨names, hsame, hmade⟩ := mkdir_eq_ok hmkdir
        rw [habs] at hsame
        cases hsame
        refine .entered _ hdir haddr (.of_update (.of_mkdir hmade rfl) rfl) rfl ?_ ⟨rfl, rfl, id⟩ ?_
        · intro pair hpair
          exact (mem_append.mp hpair).imp_right mem_singleton.mp
        · intro _
          rw [destination_of_update rfl, (FileTree.mkdir_spec hmade).2.2.2, if_pos rfl]
          rintro ⟨⟩
      case h_2 failure hmkdir =>
        split_ifs with hstatus
        · refine .entered _ hdir haddr (.of_volumes rfl) rfl (fun _ hpair ↦ .inl hpair)
            ⟨rfl, rfl, id⟩ fun hcalm ↦ ?_
          exact mkdir_alreadyExists (hcalm _) (by simp) habs hmkdir hstatus
        · exact .failed _ rfl rfl rfl (not_clean_fail _ _ _ _)
    · exact .file _ (by simpa using hdir) haddr
        (copyFile_outcome env request hchild haddr _).of_visiting
  · rw [if_neg haddr]
    exact .failed _ rfl rfl rfl (not_clean_fail _ _ _ _)

structure VisitShape (source target rest : List Bytes) (entries : List FileEntry)
    (visit visit' : Visit) : Prop where
  walks : visit'.session.walks = visit.session.walks
  copies : ∀ pair ∈ visit'.session.copies, pair ∈ visit.session.copies ∨
    ∃ name, Addressable (target ++ (rest ++ [name])) ∧ pair = pairAt source target (rest ++ [name])
  found : ∃ names : List Bytes, names.Sublist (entries.map FileEntry.name) ∧
    (∀ name ∈ names, Addressable (target ++ (rest ++ [name]))) ∧
      visit'.found = visit.found ++ names.map fun name ↦ pairAt source target (rest ++ [name])

variable {rest : List Bytes} {entries : List FileEntry} {entry : FileEntry} {visit visit' later : Visit}

theorem EntryStep.shape (hstep : EntryStep env request source target rest entry visit visit') :
    VisitShape source target rest [entry] visit visit' := by
  have hnone : ∃ names : List Bytes, names.Sublist ([entry].map FileEntry.name) ∧
      (∀ name ∈ names, Addressable (target ++ (rest ++ [name]))) ∧
        visit.found = visit.found ++ names.map fun name ↦ pairAt source target (rest ++ [name]) :=
    ⟨[], nil_sublist _, by simp, by simp⟩
  cases hstep with
  | failed after hvolumes hwalks hcopies hclean =>
    exact ⟨hwalks, fun pair hpair ↦ .inl (hcopies ▸ hpair), hnone⟩
  | entered after hdir haddr hwrote hwalks hcopies hcounted hthere =>
    refine ⟨hwalks, fun pair hpair ↦ ?_, [entry.name], List.Sublist.refl _, by simpa, rfl⟩
    exact (hcopies pair hpair).imp_right fun hnew ↦ ⟨entry.name, haddr, hnew⟩
  | file answer hdir haddr houtcome =>
    refine ⟨houtcome.walks, fun pair hpair ↦ ?_, hnone⟩
    rw [houtcome.copies] at hpair
    refine (mem_append.mp hpair).imp_right fun hnew ↦ ⟨entry.name, haddr, ?_⟩
    split_ifs at hnew
    · exact mem_singleton.mp hnew
    · cases hnew

theorem VisitShape.trans {more : List FileEntry} (hfirst : VisitShape source target rest entries visit visit')
    (hsecond : VisitShape source target rest more visit' later) :
    VisitShape source target rest (entries ++ more) visit later where
  walks := hsecond.walks.trans hfirst.walks
  copies pair hpair := (hsecond.copies pair hpair).elim (hfirst.copies pair) .inr
  found := by
    obtain ⟨names, hnames, haddr, hfound⟩ := hfirst.found
    obtain ⟨others, hothers, haddr', hfound'⟩ := hsecond.found
    refine ⟨names ++ others, ?_, ?_, ?_⟩
    · rw [map_append]
      exact hnames.append hothers
    · exact forall_mem_append.mpr ⟨haddr, haddr'⟩
    · rw [hfound', hfound, map_append, append_assoc]

theorem visitEntries_shape (env : Environment) (request : TransferRequest)
    (hsource : ∀ name ∈ source ++ rest, EntryName name)
    (htarget : Addressable (target ++ rest)) (entries : List FileEntry) (visit : Visit) :
    VisitShape source target rest entries visit
      (entries.foldl (visitEntry env request (pairAt source target rest)) visit) := by
  induction entries generalizing visit with
  | nil => exact ⟨rfl, fun _ hpair ↦ .inl hpair, [], nil_sublist _, by simp, by simp⟩
  | cons entry entries ih =>
    exact (visitEntry_step env request hsource htarget visit entry).shape.trans (ih _)

/-- The pairs of a walk from a selected entry to its target. -/
def Below (source target : List Bytes) (pair : DirPair) : Prop :=
  ∃ rest, Addressable (target ++ rest) ∧ pair = pairAt source target rest

theorem entryNames_append (hsource : ∀ name ∈ source, EntryName name)
    (htarget : Addressable (target ++ rest)) : ∀ name ∈ source ++ rest, EntryName name := by
  intro name hmem
  rcases mem_append.mp hmem with hold | hnew
  · exact hsource name hold
  · exact (validName_of_isValidName
      (htarget.names name (mem_append_right target hnew))).entryName

structure DirShape (source target rest : List Bytes) (session session' : Session)
    (found : List DirPair) : Prop where
  walks : session'.walks = (session.scanned (buildPath (source ++ rest))).walks
  copies : ∀ pair ∈ session'.copies, pair ∈ session.copies ∨ Below source target pair
  found : ∃ names : List Bytes, names.Nodup ∧ (∀ name ∈ names, Addressable (target ++ (rest ++ [name]))) ∧
      found = names.map fun name ↦ pairAt source target (rest ++ [name])

theorem copyDir_shape (hsource : ∀ name ∈ source, EntryName name) (htarget : Addressable (target ++ rest))
    {progress progress' : Bool × Session} {found : List DirPair}
    (hstep : copyDir env request progress (pairAt source target rest) = .inr (progress', found)) :
    DirShape source target rest progress.2 progress'.2 found := by
  unfold copyDir at hstep
  dsimp only at hstep
  split_ifs at hstep
  split at hstep
  case h_1 =>
    cases hstep
    exact ⟨rfl, fun _ hpair ↦ .inl hpair, [], by simp, by simp, rfl⟩
  case h_2 entries hscan =>
    obtain ⟨names, -, -, hvisible⟩ := scan_eq_ok hscan
    cases hstep
    have hshape := visitEntries_shape env request (entryNames_append hsource htarget) htarget
      entries
      { session := progress.2.tick.scanned (buildPath (source ++ rest)) }
    obtain ⟨found, hnames, haddr, hfound⟩ := hshape.found
    refine ⟨hshape.walks, ?_, found, ?_, haddr, hfound⟩
    · intro pair hpair
      refine (hshape.copies pair hpair).imp_right ?_
      rintro ⟨name, hname, hpair⟩
      exact ⟨_, hname, hpair⟩
    · rw [hvisible] at hnames
      exact (nodup_visible _ names).sublist hnames

theorem copyDir_stop {progress answer : Bool × Session} {pair : DirPair}
    (hstep : copyDir env request progress pair = .inl answer) :
    answer = (false, progress.2) ∧ progress.2.report.cancelled := by
  unfold copyDir at hstep
  dsimp only at hstep
  split_ifs at hstep with hcancelled
  · exact ⟨(Sum.inl.inj hstep).symm, hcancelled⟩
  · split at hstep
    · cases hstep
    · cases hstep

theorem copyEntry_settles (hsource : ∀ name ∈ source, EntryName name) (htarget : Addressable target)
    (srcIsDir : Bool) (session : Session) :
    Worklist.Settles fun fuel ↦
      copyEntry env request fuel (buildPath source) (buildPath target) srcIsDir session := by
  unfold copyEntry
  split_ifs
  · refine Worklist.settles (fun _ ↦ True)
      (fun depth pair ↦ ∃ rest, Addressable (target ++ rest) ∧ pair = pairAt source target rest ∧
        depth = rest.length) kMaxDepth ?_ _ _ trivial ?_
    · rintro depth progress pair progress' found - ⟨rest, haddr, rfl, rfl⟩ hstep
      obtain ⟨names, -, hnames, rfl⟩ := (copyDir_shape hsource haddr hstep).found
      refine ⟨trivial, fun next hnext ↦ ?_⟩
      obtain ⟨name, hname, rfl⟩ := mem_map.mp hnext
      have hdepth := (hnames name hname).depth
      simp only [length_append, length_singleton] at hdepth
      exact ⟨_, by simp, by simp; omega, rest ++ [name], hnames name hname, rfl, rfl⟩
    · intro pair hpair
      refine ⟨0, [], by rwa [append_nil], ?_, rfl⟩
      rw [mem_singleton.mp hpair, pairAt, append_nil, append_nil]
  · exact .pure _

end DhcpServer.Files.TransferEngine
