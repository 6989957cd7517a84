import DhcpServer.Files.TransferWalk

/-!
# What a run of a transfer does

The check of a request, the measuring walk and the transfer of one selected entry, each with the lemma
that says what it can do, and that every run ends: the copying walk because the path policy bounds the
depth of the destination, the measuring walk because it bounds that of the source.
-/

namespace DhcpServer.Files.TransferEngine

open Library Storage.PathUtil List Option FileManager

variable {env : Environment} {request : TransferRequest} {source target : List Bytes}
  {session after : Session}

/-! ## Measuring -/

def tally (entries : List FileEntry) : Measure where
  bytes := sizes (entries.filter fun entry ↦ !entry.isDir)
  files := (entries.filter fun entry ↦ !entry.isDir).length
  dirs := (entries.filter fun entry ↦ entry.isDir).length

theorem measureDir_eq {progress progress' : Measure × Session} {dir : Bytes} {found : List Bytes}
    (hstep : measureDir env request progress dir = .inr (progress', found)) :
    ∃ names, absolute dir = some names ∧
      progress' = (progress.1 + tally (visible (progress.2.source request) names),
        (progress.2.current dir).tick) ∧
      found = ((visible (progress.2.source request) names).filter
        fun entry ↦ entry.isDir).map fun entry ↦ joinRel dir entry.name := by
  unfold measureDir at hstep
  dsimp only at hstep
  split at hstep
  case h_1 => cases hstep
  case h_2 entries hscan =>
    obtain ⟨names, habs, -, rfl⟩ := scan_eq_ok hscan
    cases hstep
    exact ⟨names, habs, rfl, rfl⟩

def Named (tree : Tree) : Prop := ∀ path node, tree.find path = some node → ∀ name ∈ path, EntryName name

theorem named_volume (volume : Volume) : Named volume.toFileTree := by
  intro path node hfind
  exact volume.names _ (FileTree.find_eq_some_iff.mp hfind)

structure Quiet (session session' : Session) : Prop where
  volumes : session'.volumes = session.volumes
  walks : session'.walks = session.walks
  copies : session'.copies = session.copies

theorem Quiet.trans {session session' later : Session} (hfirst : Quiet session session')
    (hsecond : Quiet session' later) : Quiet session later :=
  ⟨hsecond.volumes.trans hfirst.volumes, hsecond.walks.trans hfirst.walks,
    hsecond.copies.trans hfirst.copies⟩

theorem measureDir_stop_quiet {progress : Measure × Session} {dir : Bytes}
    {answer : Except Failure Measure × Session}
    (hstep : measureDir env request progress dir = .inl answer) : Quiet progress.2 answer.2 := by
  unfold measureDir at hstep
  dsimp only at hstep
  split at hstep
  case h_1 =>
    obtain rfl := Sum.inl.inj hstep
    exact ⟨rfl, rfl, rfl⟩
  case h_2 => cases hstep

variable {fuel : Nat}

theorem measureEntry_quiet {top : Bytes} {answer : Except Failure Measure × Session}
    (hanswer : measureEntry env request fuel top session = some answer) :
    Quiet session answer.2 := by
  unfold measureEntry at hanswer
  split at hanswer
  case h_1 =>
    cases hanswer
    exact ⟨rfl, rfl, rfl⟩
  case h_2 =>
    split_ifs at hanswer
    · refine Worklist.invariant (fun _ progress ↦ Quiet session progress.2)
        (fun answer ↦ Quiet session answer.2) ?_ ?_ (fun _ hquiet ↦ hquiet) hanswer
        ⟨rfl, rfl, rfl⟩
      · intro dir queue progress progress' found hquiet hstep
        obtain ⟨-, -, rfl, -⟩ := measureDir_eq hstep
        exact hquiet.trans ⟨rfl, rfl, rfl⟩
      · intro dir queue progress answer hquiet hstep
        exact hquiet.trans (measureDir_stop_quiet hstep)
    · cases hanswer
      exact ⟨rfl, rfl, rfl⟩

theorem measurePath_quiet {dstDir raw : Bytes}
    (hafter : measurePath env request fuel dstDir raw session = some after) :
    Quiet session after := by
  unfold measurePath at hafter
  split at hafter
  case h_1 =>
    cases hafter
    exact ⟨rfl, rfl, rfl⟩
  case h_2 =>
    split_ifs at hafter
    · cases hafter
      exact ⟨rfl, rfl, rfl⟩
    · obtain ⟨answer, hanswer, rfl⟩ := map_eq_some_iff.mp hafter
      have htick : Quiet session session.tick := ⟨rfl, rfl, rfl⟩
      have hquiet := htick.trans (measureEntry_quiet hanswer)
      split
      · exact hquiet.trans ⟨rfl, rfl, rfl⟩
      · exact hquiet.trans ⟨rfl, rfl, rfl⟩

theorem measurePaths_quiet {dstDir : Bytes}
    (hafter : measurePaths env request fuel dstDir session = some after) : Quiet session after :=
  Worklist.foldlM_invariant (Quiet session)
    (fun _ _ _ hquiet _ hnext ↦ hquiet.trans (measurePath_quiet hnext)) hafter ⟨rfl, rfl, rfl⟩

theorem measureAndCopy_cases {dstDir : Bytes}
    (hafter : measureAndCopy env request fuel dstDir session = some after) :
    ∃ measured, measurePaths env request fuel dstDir session = some measured ∧
      (Quiet measured after ∧ ¬after.Clean ∨ transferPaths env request fuel dstDir
          (measured.tick.compared (env.free measured.clock)).copying = some after) := by
  obtain ⟨measured, hmeasured, hcopy⟩ := bind_eq_some_iff.mp hafter
  refine ⟨measured, hmeasured, ?_⟩
  dsimp only at hcopy
  split_ifs at hcopy
  · cases hcopy
    exact .inl ⟨⟨rfl, rfl, rfl⟩, not_clean_fail _ _ _ _⟩
  · exact .inr hcopy

theorem measureEntry_settles (hsource : ∀ name ∈ source, EntryName name)
    (hnamed : Named (session.source request)) :
    Worklist.Settles fun fuel ↦ measureEntry env request fuel (buildPath source) session := by
  unfold measureEntry
  split
  case h_1 => exact .pure _
  case h_2 =>
    split_ifs
    · refine Worklist.settles (fun progress ↦ Named (progress.2.source request))
        (fun depth dir ↦ ∃ segments : List Bytes, (∀ name ∈ segments, EntryName name) ∧
          dir = buildPath segments ∧ depth = segments.length) (kMaxDepth + 1) ?_ _ _ hnamed ?_
      · rintro depth progress dir progress' found hnamed ⟨segments, hsegments, rfl, rfl⟩ hstep
        obtain ⟨names, habs, rfl, rfl⟩ := measureDir_eq hstep
        obtain ⟨rfl, haddr⟩ := absolute_buildPath_eq hsegments habs
        refine ⟨hnamed, fun next hnext ↦ ?_⟩
        obtain ⟨entry, hentry, rfl⟩ := List.mem_map.mp hnext
        obtain ⟨-, node, hfind, -⟩ := mem_visible.mp (mem_of_mem_filter hentry)
        have hdepth := haddr.depth
        refine ⟨segments.length + 1, by omega, by omega, segments ++ [entry.name],
          hnamed _ node hfind, joinRel_buildPath hsegments entry.name, by simp⟩
      · intro dir hdir
        exact ⟨_, source, hsource, mem_singleton.mp hdir, rfl⟩
    · exact .pure _

/-- What is known of a selected path that has passed: it names an entry of a directory. -/
structure Selected (request : TransferRequest) (tree : Tree) (dstDir : List Bytes) (raw : Bytes)
    (dir : List Bytes) (name : Bytes) : Prop where
  split : splitSegments raw = some (dir ++ [name])
  normal : normalize raw = some (buildPath (dir ++ [name]))
  addressable : Addressable (dir ++ [name])
  found : tree.find (dir ++ [name]) ≠ none
  /-- on one volume, the entry is not in the destination already and does not contain it -/
  apart : request.srcVolume = request.dstVolume →
    dstDir ≠ dir ∧ (dir ++ [name] <+: dstDir → dstDir = dir ++ [name])

theorem split_unique {raw name name' : Bytes} {dir dir' : List Bytes}
    (hsplit : splitSegments raw = some (dir ++ [name]))
    (hsplit' : splitSegments raw = some (dir' ++ [name'])) : dir = dir' ∧ name = name' := by
  have hsegments : dir ++ [name] = dir' ++ [name'] := Option.some.inj (hsplit.symm.trans hsplit')
  obtain ⟨hdir, hname⟩ := append_inj' hsegments rfl
  exact ⟨hdir, singleton_inj.mp hname⟩

structure Accepted (request : TransferRequest) (volumes : Bytes → Tree) (dstDir : List Bytes) : Prop where
  split : splitSegments request.dstPath = some dstDir
  normal : normalize request.dstPath = some (buildPath dstDir)
  addressable : Addressable dstDir
  isDir : (volumes request.dstVolume).IsDir dstDir
  paths : ∀ raw ∈ request.paths,
    ∃ dir name, Selected request (volumes request.srcVolume) dstDir raw dir name

theorem validatePaths_quiet (env : Environment) (request : TransferRequest) (dstDir : Bytes)
    (paths : List Bytes) (session : Session) :
    Quiet session (validatePaths env request dstDir paths session).2 ∧
      (validatePaths env request dstDir paths session).2.report = session.report := by
  induction paths generalizing session with
  | nil => exact ⟨⟨rfl, rfl, rfl⟩, rfl⟩
  | cons raw paths ih =>
    have htick : Quiet session session.tick := ⟨rfl, rfl, rfl⟩
    rw [validatePaths]
    split
    · exact ⟨⟨rfl, rfl, rfl⟩, rfl⟩
    · split
      · exact ⟨⟨rfl, rfl, rfl⟩, rfl⟩
      · split
        · exact ⟨⟨rfl, rfl, rfl⟩, rfl⟩
        · split_ifs
          · exact ⟨⟨rfl, rfl, rfl⟩, rfl⟩
          · exact ⟨⟨rfl, rfl, rfl⟩, rfl⟩
          · exact ⟨htick.trans (ih session.tick).1, (ih session.tick).2⟩

theorem validate_quiet (env : Environment) (request : TransferRequest) (session : Session) :
    Quiet session (validate env request session).2 ∧
      (validate env request session).2.report = session.report := by
  unfold validate
  split
  · exact ⟨⟨rfl, rfl, rfl⟩, rfl⟩
  · split
    · exact ⟨⟨rfl, rfl, rfl⟩, rfl⟩
    · split
      case h_1 => exact ⟨⟨rfl, rfl, rfl⟩, rfl⟩
      case h_2 dstDir _ =>
        obtain ⟨hquiet, hreport⟩ := validatePaths_quiet env request dstDir request.paths session
        dsimp only
        split
        case h_1 => exact ⟨hquiet, hreport⟩
        case h_2 =>
          split
          case h_1 => exact ⟨hquiet.trans ⟨rfl, rfl, rfl⟩, hreport⟩
          case h_2 =>
            split_ifs
            · exact ⟨hquiet.trans ⟨rfl, rfl, rfl⟩, hreport⟩
            · exact ⟨hquiet.trans ⟨rfl, rfl, rfl⟩, hreport⟩

theorem validatePaths_accepted {dstDir : List Bytes} (haddr : Addressable dstDir) {paths : List Bytes}
    (haccepted : (validatePaths env request (buildPath dstDir) paths session).1 = none) :
    ∀ raw ∈ paths, ∃ dir name, Selected request (session.source request) dstDir raw dir name := by
  induction paths generalizing session with
  | nil => simp
  | cons raw paths ih =>
    rw [validatePaths] at haccepted
    split at haccepted
    case h_1 => cases haccepted
    case h_2 path hnormal =>
      obtain ⟨segments, hsplit, hsegments, rfl⟩ := normalize_eq_some_iff.mp hnormal
      cases segments using reverseRecOn with
      | nil =>
        have hroot : buildPath [] = [slash] := rfl
        rw [if_pos hroot] at haccepted
        cases haccepted
      | append_singleton dir name =>
        have hname := validName_of_isValidName (hsegments.names name (by simp))
        rw [if_neg (buildPath_concat_ne_slash dir hname)] at haccepted
        split at haccepted
        case h_1 => cases haccepted
        case h_2 entry hstat =>
          split_ifs at haccepted with hparent hinside
          have hrest := ih haccepted
          refine forall_mem_cons.mpr
            ⟨⟨dir, name, hsplit, hnormal, hsegments, ?_, fun hsame ↦ ⟨?_, ?_⟩⟩, hrest⟩
          · obtain ⟨names, node, habs, hfind, -⟩ := stat_eq_ok hstat
            rw [absolute_buildPath hsegments] at habs
            rw [Option.some.inj habs, hfind]
            rintro ⟨⟩
          · rintro rfl
            exact hparent ⟨hsame, (parent_buildPath hname).symm⟩
          · intro hbelow
            by_contra hne
            refine hinside ⟨hsame, ?_⟩
            rw [buildPath_prefix_iff hsegments.names haddr.names (by simp)]
            exact ⟨hbelow, fun heq ↦ hne heq.symm⟩

theorem validate_accepted (haccepted : (validate env request session).1 = none) :
    ∃ dstDir, Accepted request session.volumes dstDir := by
  unfold validate at haccepted
  split at haccepted
  · cases haccepted
  · split at haccepted
    · cases haccepted
    · split at haccepted
      case h_1 => cases haccepted
      case h_2 path hnormal =>
        obtain ⟨dstDir, hsplit, haddr, rfl⟩ := normalize_eq_some_iff.mp hnormal
        obtain ⟨hquiet, -⟩ := validatePaths_quiet env request (buildPath dstDir) request.paths session
        dsimp only at haccepted
        split at haccepted
        case h_1 => cases haccepted
        case h_2 hpaths =>
          split at haccepted
          case h_1 entries hscan =>
            obtain ⟨names, habs, hdir, -⟩ := scan_eq_ok hscan
            rw [absolute_buildPath haddr] at habs
            cases habs
            rw [Session.destination, hquiet.volumes] at hdir
            exact ⟨dstDir, hsplit, hnormal, haddr, hdir, validatePaths_accepted haddr hpaths⟩
          case h_2 => cases haccepted

section Settles

variable {dstDir : List Bytes}

theorem copyAndDelete_settles (hsource : ∀ name ∈ source, EntryName name) (htarget : Addressable target)
    (srcIsDir : Bool) (session : Session) :
    Worklist.Settles fun fuel ↦
      copyAndDelete env request fuel (buildPath source) (buildPath target) srcIsDir session :=
  (copyEntry_settles hsource htarget srcIsDir session).map _

theorem transferTo_settles (hsource : ∀ name ∈ source, EntryName name) (htarget : Addressable target)
    (srcIsDir : Bool) (session : Session) :
    Worklist.Settles fun fuel ↦
      transferTo env request fuel (buildPath source) (buildPath target) srcIsDir session := by
  unfold transferTo
  split
  · split
    · exact copyAndDelete_settles hsource htarget srcIsDir _
    · split
      · exact copyAndDelete_settles hsource htarget srcIsDir _
      · exact .pure _
  · exact copyAndDelete_settles hsource htarget srcIsDir _

theorem transferPath_settles (haddr : Addressable dstDir) (raw : Bytes) (session : Session) :
    Worklist.Settles fun fuel ↦
      transferPath env request fuel (buildPath dstDir) raw session := by
  unfold transferPath
  split
  case h_1 => exact .pure _
  case h_2 path hnormal =>
    obtain ⟨segments, -, hsegments, rfl⟩ := normalize_eq_some_iff.mp hnormal
    have hsource := hsegments.entryNames
    rw [normalizeChild_buildPath haddr]
    by_cases htarget : Addressable (dstDir ++ [basename (buildPath segments)])
    · rw [if_pos htarget]
      dsimp only
      split
      · exact .pure _
      · split
        · exact transferTo_settles hsource htarget _ _
        · split
          · exact .pure _
          · split
            · exact .pure _
            · exact transferTo_settles hsource htarget _ _
    · rw [if_neg htarget]
      exact .pure _

theorem measurePath_settles (hnamed : Named (session.source request)) (dstDir raw : Bytes) :
    Worklist.Settles fun fuel ↦ measurePath env request fuel dstDir raw session := by
  unfold measurePath
  split
  case h_1 => exact .pure _
  case h_2 path hnormal =>
    obtain ⟨segments, -, hsegments, rfl⟩ := normalize_eq_some_iff.mp hnormal
    have hsource := hsegments.entryNames
    split
    · exact .pure _
    · have htick : Named (session.tick.source request) := hnamed
      exact (measureEntry_settles hsource htick).map _

theorem measureAndCopy_settles (haddr : Addressable dstDir)
    (hnamed : Named (session.source request)) :
    Worklist.Settles fun fuel ↦
      measureAndCopy env request fuel (buildPath dstDir) session := by
  unfold measureAndCopy
  refine .bind ?_ fun fuel measured hmeasured ↦ ?_
  · refine .foldlM (fun later hlater raw ↦ measurePath_settles hlater (buildPath dstDir) raw)
      (fun fuel later raw next hlater hnext ↦ ?_) session hnamed
    rw [Session.source, (measurePath_quiet hnext).volumes]
    exact hlater
  · dsimp only
    split
    · exact .pure _
    · refine .foldlM (fun later _ raw ↦ ?_) (fun _ _ _ _ _ _ ↦ trivial) _ trivial
      split
      · exact .pure _
      · exact transferPath_settles haddr raw later

theorem run_settles (env : Environment) (request : TransferRequest)
    (volumes : Bytes → Volume) :
    Worklist.Settles fun fuel ↦
      run env request fuel fun volume ↦ (volumes volume).toFileTree := by
  unfold run
  dsimp only
  obtain ⟨hquiet, -⟩ := validate_quiet env request
    (start request fun volume ↦ (volumes volume).toFileTree)
  split
  case h_1 => exact .pure _
  case h_2 haccepted =>
    obtain ⟨dstDir, hdst⟩ := validate_accepted haccepted
    rw [hdst.normal, getD_some]
    generalize (validate env request _).2 = begun at hquiet ⊢
    unfold runAccepted
    split
    · exact .pure _
    · have hsource : (begun.directed (buildPath dstDir)).source request =
          (volumes request.srcVolume).toFileTree := congrFun hquiet.volumes request.srcVolume
      refine (measureAndCopy_settles hdst.addressable ?_).map _
      rw [hsource]
      exact named_volume (volumes request.srcVolume)

end Settles

theorem run_cases {volumes : Bytes → Tree} {session : Session}
    (hrun : run env request fuel volumes = some session) :
    (Quiet (start request volumes) session ∧ ¬session.Clean) ∨
      ∃ dstDir begun, Accepted request volumes dstDir ∧ Quiet (start request volumes) begun ∧
        begun.report = (start request volumes).report ∧
          runAccepted env request fuel (buildPath dstDir) begun = some session := by
  unfold run at hrun
  dsimp only at hrun
  obtain ⟨hquiet, hreport⟩ := validate_quiet env request (start request volumes)
  split at hrun
  case h_1 =>
    cases hrun
    exact .inl ⟨hquiet.trans ⟨rfl, rfl, rfl⟩, not_clean_fail _ _ _ _⟩
  case h_2 haccepted =>
    obtain ⟨dstDir, hdst⟩ := validate_accepted haccepted
    rw [hdst.normal, getD_some] at hrun
    exact .inr ⟨dstDir, _, hdst, hquiet, hreport, hrun⟩

/-- What precedes the copy of an entry: a directory gets its place. -/
structure Begun (env : Environment) (request : TransferRequest) (source target : List Bytes)
    (isDir : Bool) (session begun : Session) : Prop where
  wrote : Wrote request (fun _ ↦ False) (· = target) session begun
  walks : begun.walks = session.walks
  copies : ∀ pair ∈ begun.copies, pair ∈ session.copies ∨ pair = pairAt source target []
  counted : ∃ made : Nat, Counted ⟨0, 0, made⟩ session begun ∧
    (env.Calm → made = if isDir ∧ (session.destination request).find target = none then 1 else 0)
  there : env.Calm → isDir = true → (begun.destination request).find target = some .dir

theorem transferTo_cases {isDir : Bool} (htarget : Addressable target)
    (hroot : target ≠ [])
    (hfree : env.Calm → isDir → ∀ content,
      (session.destination request).find target ≠ some (.file content))
    (hafter : transferTo env request fuel (buildPath source) (buildPath target) isDir session =
      some after) :
    (Quiet session after ∧ ¬after.Clean) ∨ ∃ begun, Begun env request source target isDir session begun ∧
        copyAndDelete env request fuel (buildPath source) (buildPath target) isDir begun =
          some after := by
  have habs := absolute_buildPath htarget
  unfold transferTo at hafter
  cases isDir with
  | false =>
    refine .inr ⟨session, ⟨.of_volumes rfl, rfl, fun _ hpair ↦ .inl hpair, ⟨0, ⟨rfl, rfl, id⟩, ?_⟩, ?_⟩,
      hafter⟩
    · simp
    · simp
  | true =>
    rw [if_pos rfl] at hafter
    split at hafter
    case h_1 made hmkdir =>
      obtain ⟨names, hsame, hmade⟩ := mkdir_eq_ok hmkdir
      rw [habs] at hsame
      cases hsame
      obtain ⟨-, -, hnone, hfind⟩ := FileTree.mkdir_spec hmade
      refine .inr ⟨_, ?_, hafter⟩
      refine ⟨.of_update (.of_mkdir hmade rfl) rfl, rfl, ?_, ⟨1, ⟨rfl, rfl, id⟩, fun _ ↦ ?_⟩, fun _ _ ↦ ?_⟩
      · intro pair hpair
        refine (mem_append.mp hpair).imp_right fun hnew ↦ ?_
        rw [mem_singleton.mp hnew, pairAt, append_nil, append_nil]
      · rw [if_pos ⟨rfl, hnone⟩]
      · rw [destination_of_update rfl, hfind, if_pos rfl]
    case h_2 failure hmkdir =>
      split_ifs at hafter with hstatus
      · have htaken (hcalm : env.Calm) : (session.destination request).find target = some .dir := by
          have hsome := mkdir_alreadyExists (hcalm _) hroot habs hmkdir hstatus
          obtain ⟨node, hnode⟩ := ne_none_iff_exists'.mp hsome
          cases node with
          | dir => exact hnode
          | file content => exact absurd hnode (hfree hcalm rfl content)
        refine .inr ⟨_, ?_, hafter⟩
        refine ⟨.of_volumes rfl, rfl, fun _ hpair ↦ .inl hpair, ⟨0, ⟨rfl, rfl, id⟩, fun hcalm ↦ ?_⟩,
          fun hcalm _ ↦ htaken hcalm⟩
        simp [htaken hcalm]
      · cases hafter
        exact .inl ⟨⟨rfl, rfl, rfl⟩, not_clean_fail _ _ _ _⟩

theorem Begun.of_tick {isDir : Bool} {begun : Session}
    (hbegun : Begun env request source target isDir session.tick begun) :
    Begun env request source target isDir session begun := by
  obtain ⟨made, hcounted, hmade⟩ := hbegun.counted
  exact ⟨⟨hbegun.wrote.others, hbegun.wrote.grows⟩, hbegun.walks, hbegun.copies,
    ⟨made, ⟨hcounted.done, hcounted.total, hcounted.clean⟩, hmade⟩, hbegun.there⟩

/-- The transfer of an entry gives up before it writes anything, or it copies the entry. -/
inductive TransferStep (env : Environment) (request : TransferRequest) (fuel : Nat)
    (source target : List Bytes) (session after : Session) : Prop
  | givenUp (hquiet : Quiet session after) (hclean : ¬after.Clean)
  | copied (node : Node Bytes) (begun : Session)
      (hfind : (session.source request).find source = some node) (htarget : Addressable target)
      (hskip : env.Calm → request.conflict = .skip → (session.destination request).find target = none)
      (hbegun : Begun env request source target (node = .dir) session begun)
      (hcopy : copyAndDelete env request fuel (buildPath source) (buildPath target) (node = .dir)
        begun = some after)

theorem transferPath_step {dstDir dir : List Bytes} {name raw : Bytes} {tree : Tree}
    (haddr : Addressable dstDir) (hsel : Selected request tree dstDir raw dir name)
    (hafter : transferPath env request fuel (buildPath dstDir) raw session = some after) :
    TransferStep env request fuel (dir ++ [name]) (dstDir ++ [name]) session after := by
  have hentry := hsel.addressable
  have hname := validName_of_isValidName (hentry.names name (by simp))
  unfold transferPath at hafter
  rw [hsel.normal] at hafter
  dsimp only at hafter
  rw [basename_buildPath hname, normalizeChild_buildPath haddr] at hafter
  by_cases htarget : Addressable (dstDir ++ [name])
  · rw [if_pos htarget] at hafter
    dsimp only at hafter
    split at hafter
    case h_1 =>
      cases hafter
      exact .givenUp ⟨rfl, rfl, rfl⟩ (not_clean_fail _ _ _ _)
    case h_2 entry hstat =>
      obtain ⟨names, node, habs, hfind, rfl⟩ := stat_eq_ok hstat
      rw [absolute_buildPath hentry] at habs
      cases habs
      have hdir : (entryOf (basename (buildPath (dir ++ [name]))) node).isDir =
          decide (node = .dir) := by
        cases node <;> rfl
      rw [hdir] at hafter
      have habs := absolute_buildPath htarget
      have hroot : dstDir ++ [name] ≠ [] := by simp
      -- the entry may be copied: nothing is in the way of a directory
      have hgo (hfree : env.Calm → decide (node = .dir) = true → ∀ content,
            (session.tick.tick.destination request).find (dstDir ++ [name]) ≠ some (.file content))
          (hskip : env.Calm → request.conflict = .skip →
            (session.destination request).find (dstDir ++ [name]) = none)
          (hto : transferTo env request fuel (buildPath (dir ++ [name]))
            (buildPath (dstDir ++ [name])) (decide (node = .dir)) session.tick.tick = some after) :
          TransferStep env request fuel (dir ++ [name]) (dstDir ++ [name]) session after := by
        rcases transferTo_cases htarget hroot hfree hto with ⟨hquiet, hclean⟩ | ⟨begun, hbegun, hcopy⟩
        · exact .givenUp ⟨hquiet.volumes, hquiet.walks, hquiet.copies⟩ hclean
        · exact .copied node begun hfind htarget hskip hbegun.of_tick.of_tick hcopy
      split at hafter
      case h_1 failure htaken =>
        have hnone (hcalm : env.Calm) :
            (session.destination request).find (dstDir ++ [name]) = none :=
          stat_eq_error (hcalm _) hroot habs htaken
        refine hgo (fun hcalm _ content hfile ↦ ?_) (fun hcalm _ ↦ hnone hcalm) hafter
        cases (hnone hcalm).symm.trans hfile
      case h_2 taken htaken =>
        split_ifs at hafter with hskip hfile
        · cases hafter
          refine .givenUp ⟨rfl, rfl, rfl⟩ ?_
          rintro ⟨-, hskipped, -⟩
          cases hskipped
        · cases hafter
          exact .givenUp ⟨rfl, rfl, rfl⟩ (not_clean_fail _ _ _ _)
        · refine hgo (fun _ hisDir content hfound ↦ hfile ?_) (fun _ hconflict ↦ absurd hconflict hskip) hafter
          obtain ⟨names, same, hsame, hthere, rfl⟩ := stat_eq_ok htaken
          rw [habs] at hsame
          cases hsame
          obtain rfl := Option.some.inj (hthere.symm.trans hfound)
          rw [hisDir]
          rfl
  · rw [if_neg htarget] at hafter
    cases hafter
    exact .givenUp ⟨rfl, rfl, rfl⟩ (not_clean_fail _ _ _ _)

end DhcpServer.Files.TransferEngine
