import DhcpServer.Files.TransferRun

/-!
# Moves on one volume

A move on one volume takes the entries one by one: a file in the way is removed, and the entry is
renamed. `Tracked` is the invariant of such a move. Every selected entry is still complete at its place,
or an earlier step has brought it to the destination, where no directory was in the way and from where
no later step can take it away again.
-/

namespace DhcpServer.Files.TransferEngine

open Library Storage.PathUtil List FileManager

section Trees

variable {before tree left : Tree} {base dstDir rest : List Bytes} {name other : Bytes}
  {selected moved : Bytes → Prop}

/-- The files that were below an entry of `base` are below the entry of that name in `place`. -/
def Complete (before : Tree) (base : List Bytes) (tree : Tree) (place : List Bytes) (name : Bytes) : Prop :=
  ∀ rest content, before.find (base ++ [name] ++ rest) = some (.file content) →
    tree.find (place ++ [name] ++ rest) = some (.file content)

/-- The state of a move from `base` to `dstDir`. -/
structure Tracked (before : Tree) (base dstDir : List Bytes) (selected moved : Bytes → Prop) (tree : Tree) :
    Prop where
  files : ∀ name, selected name → Complete before base tree base name ∨
    (moved name ∧ before.find (dstDir ++ [name]) ≠ some .dir ∧ ¬dstDir ++ [name] <+: base ∧
      Complete before base tree dstDir name)
  dirs : ∀ name, before.find (dstDir ++ [name]) = some .dir → tree.find (dstDir ++ [name]) = some .dir

theorem Tracked.refl (before : Tree) (base dstDir : List Bytes) (selected moved : Bytes → Prop) :
    Tracked before base dstDir selected moved before :=
  ⟨fun _ _ ↦ .inl fun _ _ hfile ↦ hfile, fun _ hdir ↦ hdir⟩

theorem Tracked.mono {later : Bytes → Prop} (htracked : Tracked before base dstDir selected moved tree)
    (hlater : ∀ name, moved name → later name) : Tracked before base dstDir selected later tree where
  files name hname := (htracked.files name hname).imp_right fun ⟨hmoved, hrest⟩ ↦ ⟨hlater name hmoved, hrest⟩
  dirs := htracked.dirs

/-- A path that continues an entry of one directory and an entry of another: the one directory holds
the other, or they are the same. -/
theorem entry_prefix_entry (hbelow : base ++ [name] <+: dstDir ++ [other]) (hne : dstDir ≠ base) :
    base ++ [name] <+: dstDir := by
  rcases prefix_concat_iff.mp hbelow with hsame | hinside
  · exact absurd (append_inj' hsame rfl).1.symm hne
  · exact hinside

/-- A file in the way is removed. It is neither a selected file that has been moved there nor one that
lies below a selected entry. -/
theorem Tracked.clear (htracked : Tracked before base dstDir selected moved tree)
    (hunlink : tree.unlink (dstDir ++ [name]) = some left)
    (honce : moved name → ∀ content, before.find (base ++ [name]) = some (.file content) →
      before.find (dstDir ++ [name]) = some .dir)
    (houtside : ∀ content, before.find (dstDir ++ [name]) = some (.file content) →
      ∀ other, selected other → ¬base ++ [other] <+: dstDir ++ [name]) :
    Tracked before base dstDir selected moved left := by
  obtain ⟨⟨old, hold⟩, hfind⟩ := FileTree.unlink_spec hunlink
  refine ⟨fun other hother ↦ ?_, fun other hdir ↦ ?_⟩
  · rcases htracked.files other hother with hsource | ⟨hmoved, hfree, hapart, htarget⟩
    · refine .inl fun rest content hfile ↦ ?_
      rw [hfind, if_neg, hsource rest content hfile]
      intro hsame
      refine houtside content (hsame ▸ hfile) other hother ?_
      rw [← hsame]
      exact prefix_append _ _
    · refine .inr ⟨hmoved, hfree, hapart, fun rest content hfile ↦ ?_⟩
      rw [hfind, if_neg, htarget rest content hfile]
      intro hsame
      rw [append_assoc, singleton_append] at hsame
      obtain ⟨rfl, hrest⟩ := cons.inj (append_cancel_left hsame)
      rw [hrest, append_nil] at hfile
      exact hfree (honce hmoved content hfile)
  · rw [hfind, if_neg, htracked.dirs other hdir]
    intro hsame
    rw [hsame] at hdir
    rw [htracked.dirs name hdir] at hold
    cases hold

theorem Tracked.rename (htracked : Tracked before base dstDir selected moved tree) (hne : dstDir ≠ base)
    (hmovable : tree.Movable (base ++ [name]) (dstDir ++ [name])) (hmoved : moved name) :
    Tracked before base dstDir selected moved hmovable.rename := by
  have hfree : ∀ path node, tree.find path = some node → ¬dstDir ++ [name] <+: path := by
    intro path node hnode hbelow
    rw [hmovable.below_target hbelow] at hnode
    cases hnode
  have hdst : ¬base ++ [name] <+: dstDir := fun hinside ↦
    hmovable.not_inside (hinside.trans (prefix_append _ _))
  have hentry : ∀ other, ¬base ++ [name] <+: dstDir ++ [other] := fun other hbelow ↦
    hdst (entry_prefix_entry hbelow hne)
  refine ⟨fun other hother ↦ ?_, fun other hdir ↦ ?_⟩
  · by_cases hsame : other = name
    · subst hsame
      rcases htracked.files other hother with hsource | ⟨-, -, -, htarget⟩
      · refine .inr ⟨hmoved, fun hdir ↦ ?_, fun hbelow ↦ ?_, fun rest content hfile ↦ ?_⟩
        · have htaken := htracked.dirs other hdir
          rw [hmovable.target_free] at htaken
          cases htaken
        · exact hmovable.source_ne (hmovable.below_target (hbelow.trans (prefix_append _ _)))
        · rw [hmovable.find_rename]
          exact hsource rest content hfile
      · refine .inl fun rest content hfile ↦ ?_
        have hthere := htarget rest content hfile
        rw [hmovable.below_target (prefix_append _ _)] at hthere
        cases hthere
    · rcases htracked.files other hother with hsource | ⟨hmoved', hdir, hapart, htarget⟩
      · refine .inl fun rest content hfile ↦ ?_
        have hthere := hsource rest content hfile
        rw [hmovable.find_rename_outside _ (hfree _ _ hthere), hthere]
        rw [append_assoc, prefix_append_right_inj]
        intro hbelow
        exact hsame (cons_prefix_cons.mp hbelow).1.symm
      · refine .inr ⟨hmoved', hdir, hapart, fun rest content hfile ↦ ?_⟩
        have hthere := htarget rest content hfile
        rw [hmovable.find_rename_outside _ (hfree _ _ hthere), hthere]
        intro hbelow
        rcases prefix_or_prefix_of_prefix hbelow (prefix_append (dstDir ++ [other]) rest)
          with hinside | hcontains
        · exact hentry other hinside
        · exact hapart (entry_prefix_entry hcontains hne.symm)
  · have hthere := htracked.dirs other hdir
    rw [hmovable.find_rename_outside (hentry other) (hfree _ _ hthere), hthere]

end Trees

variable {env : Environment} {request : TransferRequest} {session : Session}
  {base dstDir : List Bytes} {name raw : Bytes} {before : Tree} {selected moved : Bytes → Prop}

theorem source_of_update {session' : Session} {tree : Tree}
    (hvolumes : session'.volumes = Function.update session.volumes request.srcVolume tree) :
    session'.source request = tree := by
  rw [Session.source, hvolumes, Function.update_self]

theorem renameEntry_cases {source target : List Bytes} (entry : FileEntry) (session : Session)
    (hsource : Addressable source) (htarget : Addressable target) :
    (renameEntry env request (buildPath source) (buildPath target) entry session).source request =
        session.source request ∨
      ∃ hmovable : (session.source request).Movable source target,
        (renameEntry env request (buildPath source) (buildPath target) entry
          session).source request = hmovable.rename := by
  unfold renameEntry
  split
  case h_1 => exact .inl rfl
  case h_2 tree hrename =>
    obtain ⟨names, others, hnames, hothers, hmoved⟩ := rename_eq_ok hrename
    rw [absolute_buildPath hsource] at hnames
    rw [absolute_buildPath htarget] at hothers
    cases hnames
    cases hothers
    obtain ⟨hmovable, rfl⟩ := FileTree.rename_spec hmoved
    refine .inr ⟨hmovable, ?_⟩
    split_ifs
    · exact source_of_update rfl
    · exact source_of_update rfl

theorem renameEntry_tracked (hsel : Addressable (base ++ [name])) (htarget : Addressable (dstDir ++ [name]))
    (hne : dstDir ≠ base) (hmoved : moved name) (entry : FileEntry)
    (htracked : Tracked before base dstDir selected moved (session.source request)) :
    Tracked before base dstDir selected moved
      ((renameEntry env request (buildPath (base ++ [name])) (buildPath (dstDir ++ [name])) entry
        session).source request) := by
  rcases renameEntry_cases entry session hsel htarget with hsame | ⟨hmovable, hrename⟩
  · rw [hsame]
    exact htracked
  · rw [hrename]
    exact htracked.rename hne hmovable hmoved

theorem remove_file_cases {tree : Tree} {target : List Bytes} {fate fate' : Fate} {entry : FileEntry}
    (htarget : Addressable target) (hstat : stat fate tree (buildPath target) = .ok entry)
    (hfile : entry.isDir = false) :
    (remove fate' tree (buildPath target) false).2 = tree ∨
      tree.unlink target = some (remove fate' tree (buildPath target) false).2 := by
  have habs := absolute_buildPath htarget
  obtain ⟨names, node, hnames, hnode, rfl⟩ := stat_eq_ok hstat
  rw [habs] at hnames
  cases hnames
  refine (remove_cases fate' tree (buildPath target) false).imp_right ?_
  rintro ⟨names, hnames, hunlink | ⟨hdir, -⟩⟩
  · rw [habs] at hnames
    cases hnames
    exact hunlink
  · rw [habs] at hnames
    rw [← Option.some.inj hnames, hnode] at hdir
    rw [Option.some.inj hdir] at hfile
    cases hfile

theorem renamePath_tracked {tree : Tree} {later : Bytes → Prop} (haddr : Addressable dstDir)
    (hsel : Selected request tree dstDir raw base name) (hne : dstDir ≠ base)
    (hlater : ∀ name, moved name → later name) (hname : later name)
    (honce : request.conflict ≠ .skip → Addressable (dstDir ++ [name]) → moved name → ∀ content,
      before.find (base ++ [name]) = some (.file content) → before.find (dstDir ++ [name]) = some .dir)
    (houtside : request.conflict ≠ .skip → Addressable (dstDir ++ [name]) → ∀ content,
      before.find (dstDir ++ [name]) = some (.file content) →
        ∀ other, selected other → ¬base ++ [other] <+: dstDir ++ [name])
    (htracked : Tracked before base dstDir selected moved (session.source request)) :
    Tracked before base dstDir selected later
      ((renamePath env request (buildPath dstDir) raw session).source request) := by
  have hentry := hsel.addressable
  have hvalid := validName_of_isValidName (hentry.names name (by simp))
  have hstay := htracked.mono hlater
  unfold renamePath
  rw [hsel.normal]
  dsimp only
  rw [basename_buildPath hvalid, normalizeChild_buildPath haddr]
  by_cases htarget : Addressable (dstDir ++ [name])
  · rw [if_pos htarget]
    dsimp only
    split
    case h_1 => exact renameEntry_tracked hentry htarget hne hname {} hstay
    case h_2 entry hstat =>
      split
      case isTrue => exact hstay
      case isFalse hfile =>
        split
        case isTrue => exact hstay
        case isFalse hskip =>
          have hcleared : Tracked before base dstDir selected moved
              (remove (session.tick.fate env) (session.source request)
                (buildPath (dstDir ++ [name])) false).2 := by
            rcases remove_file_cases htarget hstat (by simpa using hfile) with hsame | hunlink
            · rw [hsame]
              exact htracked
            · exact htracked.clear hunlink (honce hskip htarget) (houtside hskip htarget)
          split
          case h_1 =>
            rw [source_of_update rfl]
            exact hcleared.mono hlater
          case h_2 =>
            refine renameEntry_tracked hentry htarget hne hname entry ?_
            rw [source_of_update rfl]
            exact hcleared.mono hlater
  · rw [if_neg htarget]
    exact hstay

/-- The entries of a directory that a list of paths names. -/
def Names (base paths : List Bytes) (name : Bytes) : Prop :=
  ∃ raw ∈ paths, splitSegments raw = some (base ++ [name])

/-- No file that can go to the destination is named twice, unless a directory is in its way. -/
def NamedOnce (paths : List Bytes) (tree : Tree) (dstDir : List Bytes) : Prop :=
  paths.Pairwise fun first second ↦ ∀ dir name content, splitSegments first = some (dir ++ [name]) →
    splitSegments second = some (dir ++ [name]) → tree.find (dir ++ [name]) = some (.file content) →
      Addressable (dstDir ++ [name]) → tree.find (dstDir ++ [name]) = some .dir

/-- No file that is in the way lies below a selected entry. -/
def TargetsOutside (paths : List Bytes) (tree : Tree) (dstDir : List Bytes) : Prop :=
  ∀ raw ∈ paths, ∀ dir name content, splitSegments raw = some (dir ++ [name]) →
    Addressable (dstDir ++ [name]) → tree.find (dstDir ++ [name]) = some (.file content) →
      ∀ other ∈ paths, ∀ entry, splitSegments other = some entry → ¬entry <+: dstDir ++ [name]

theorem runInstant_tracked (haddr : Addressable dstDir) (hne : dstDir ≠ base)
    (hsel : ∀ raw ∈ request.paths, ∃ name, Selected request before dstDir raw base name)
    (honce : request.conflict ≠ .skip → NamedOnce request.paths before dstDir)
    (houtside : request.conflict ≠ .skip → TargetsOutside request.paths before dstDir)
    {done paths : List Bytes} (hpaths : request.paths = done ++ paths)
    (htracked : Tracked before base dstDir (Names base request.paths) (Names base done)
      (session.source request)) :
    Tracked before base dstDir (Names base request.paths) (Names base request.paths)
      ((runInstant env request (buildPath dstDir) paths session).source request) := by
  have hmore : ∀ {done rest : List Bytes}, request.paths = done ++ rest →
      ∀ name, Names base done name → Names base request.paths name := by
    rintro done rest hall name ⟨raw, hraw, hsplit⟩
    exact ⟨raw, hall ▸ mem_append_left rest hraw, hsplit⟩
  induction paths generalizing session done with
  | nil => exact htracked.mono (hmore hpaths)
  | cons raw paths ih =>
    have hraw : raw ∈ request.paths := hpaths ▸ mem_append_right done mem_cons_self
    obtain ⟨name, hentry⟩ := hsel raw hraw
    rw [runInstant]
    rcases cancelRequested_cases env session with hstop | hgo
    · rw [hstop, if_pos rfl]
      exact htracked.mono (hmore hpaths)
    · rw [hgo, if_neg Bool.false_ne_true]
      have hnext : request.paths = (done ++ [raw]) ++ paths := by
        rw [hpaths, append_assoc, singleton_append]
      refine ih hnext (renamePath_tracked haddr hentry hne ?_ ?_ ?_ ?_ htracked)
      · rintro same ⟨earlier, hearlier, hsplit⟩
        exact ⟨earlier, mem_append_left _ hearlier, hsplit⟩
      · exact ⟨raw, by simp, hentry.split⟩
      · rintro hskip htarget ⟨earlier, hearlier, hsplit⟩ content hfile
        have hpairwise := honce hskip
        rw [hpaths] at hpairwise
        exact (pairwise_append.mp hpairwise).2.2 earlier hearlier raw mem_cons_self
          base name content hsplit hentry.split hfile htarget
      · rintro hskip htarget content hfile other ⟨path, hpath, hsplit⟩
        exact houtside hskip raw hraw base name content hentry.split htarget hfile path hpath _ hsplit

end DhcpServer.Files.TransferEngine
