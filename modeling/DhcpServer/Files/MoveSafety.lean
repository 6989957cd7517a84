import DhcpServer.Files.InstantMove
import DhcpServer.Files.TransferCopy

/-!
# A move keeps the files

A move to another volume deletes an entry once its copy is complete, and a move on one volume renames
the entries. No file below a selected entry is lost where the copy can see all that the deletion takes
away and where no file is removed that the move itself has brought or is about to bring.
-/

namespace DhcpServer.Files.TransferEngine

open Library Storage.PathUtil List Option FileManager

variable {env : Environment} {request : TransferRequest} {before : Tree}
  {source target base dstDir : List Bytes} {name raw : Bytes} {session after : Session}
  {selected : Bytes → Prop}

/-- The state of a move from `base` to `dstDir` on another volume. -/
structure Carried (request : TransferRequest) (before : Tree) (base dstDir : List Bytes)
    (selected : Bytes → Prop) (session : Session) : Prop where
  shrinks : ∀ path node, (session.source request).find path = some node → before.find path = some node
  files : ∀ name rest content, selected name → Plain (dstDir ++ [name] ++ rest) →
    before.find (base ++ [name] ++ rest) = some (.file content) →
      (session.source request).find (base ++ [name] ++ rest) = some (.file content) ∨
        (session.destination request).find (dstDir ++ [name] ++ rest) = some (.file content)

theorem Carried.of_volumes (hcarried : Carried request before base dstDir selected session)
    (hvolumes : after.volumes = session.volumes) :
    Carried request before base dstDir selected after := by
  obtain ⟨hshrinks, hfiles⟩ := hcarried
  simp only [Session.source, Session.destination] at hshrinks hfiles
  rw [← hvolumes] at hshrinks hfiles
  exact ⟨hshrinks, hfiles⟩

theorem Carried.wrote (hcarried : Carried request before base dstDir selected session)
    (hvolumes : request.srcVolume ≠ request.dstVolume)
    (hwrote : Wrote request (Reaches (session.source request) (base ++ [name]) (dstDir ++ [name]))
      (dstDir ++ [name] <+: ·) session after) : Carried request before base dstDir selected after := by
  have hsource := hwrote.source_eq hvolumes
  refine ⟨hsource ▸ hcarried.shrinks, fun other rest content hother hplain hfile ↦ ?_⟩
  rw [hsource]
  rcases hcarried.files other rest content hother hplain hfile with hstill | hthere
  · exact .inl hstill
  · by_cases htouched : Reaches (session.source request) (base ++ [name]) (dstDir ++ [name])
        (dstDir ++ [other] ++ rest)
    · obtain ⟨rest', content', hpath, hfind⟩ := htouched.of_plain (by simp) hplain
      have hlist : other :: rest = name :: rest' := by
        simpa using hpath
      obtain ⟨rfl, rfl⟩ := cons.inj hlist
      have hsame := hcarried.shrinks _ _ hfind
      rw [hfile] at hsame
      rw [Option.some.inj hsame]
      exact .inl hfind
    · exact .inr ((hwrote.grows.files _ content htouched).mpr hthere)

theorem deleteSource_volumes (env : Environment) (request : TransferRequest) (path : Bytes)
    (srcIsDir : Bool) (session : Session) :
    (deleteSource env request path srcIsDir session).volumes =
      Function.update session.volumes request.srcVolume
        (remove (session.fate env) (session.source request) path srcIsDir).2 := by
  unfold deleteSource
  dsimp only
  split
  · rfl
  · rfl

theorem remove_shrinks (fate : Fate) (tree : Tree) (recursive : Bool) (haddr : Addressable source) :
    (∀ path, ¬source <+: path →
        (remove fate tree (buildPath source) recursive).2.find path = tree.find path) ∧
      ∀ path node, (remove fate tree (buildPath source) recursive).2.find path = some node →
        tree.find path = some node := by
  have habs := absolute_buildPath haddr
  rcases remove_cases fate tree (buildPath source) recursive with
    hsame | ⟨names, hnames, hunlink | ⟨-, hremove⟩⟩
  · rw [hsame]
    exact ⟨fun _ _ ↦ rfl, fun _ _ hfind ↦ hfind⟩
  · rw [habs] at hnames
    cases hnames
    obtain ⟨-, hfind⟩ := FileTree.unlink_spec hunlink
    refine ⟨fun path houtside ↦ ?_, fun path node hnode ↦ ?_⟩
    · rw [hfind, if_neg]
      rintro rfl
      exact houtside prefix_rfl
    · rw [hfind] at hnode
      split_ifs at hnode
      exact hnode
  · rw [habs] at hnames
    cases hnames
    rw [hremove]
    exact ⟨fun _ houtside ↦ FileTree.find_removeTree_outside houtside,
      fun _ _ hfind ↦ FileTree.find_of_find_removeTree hfind⟩

theorem Carried.delete (hcarried : Carried request before base dstDir selected session)
    (hvolumes : request.srcVolume ≠ request.dstVolume) (haddr : Addressable (base ++ [name]))
    (hplaced : ∀ rest, Plain (dstDir ++ [name] ++ rest) →
      Placed env request (session.source request) (base ++ [name]) (dstDir ++ [name]) rest session)
    (srcIsDir : Bool) :
    Carried request before base dstDir selected
      (deleteSource env request (buildPath (base ++ [name])) srcIsDir session) := by
  obtain ⟨hkept, hless⟩ := remove_shrinks (session.fate env) (session.source request) srcIsDir
    haddr
  have hdelete := deleteSource_volumes env request (buildPath (base ++ [name])) srcIsDir session
  generalize deleteSource env request (buildPath (base ++ [name])) srcIsDir session = deleted
    at hdelete ⊢
  have hsource := source_of_update hdelete
  have hdestination : deleted.destination request = session.destination request := by
    rw [Session.destination, hdelete, Function.update_of_ne hvolumes.symm, Session.destination]
  refine ⟨fun path node hnode ↦ ?_, fun other rest content hother hplain hfile ↦ ?_⟩
  · rw [hsource] at hnode
    exact hcarried.shrinks path node (hless path node hnode)
  · rw [hsource, hdestination]
    rcases hcarried.files other rest content hother hplain hfile with hstill | hthere
    · by_cases hbelow : base ++ [name] <+: base ++ [other] ++ rest
      · right
        rw [append_assoc, prefix_append_right_inj] at hbelow
        obtain rfl := (cons_prefix_cons.mp hbelow).1
        exact (hplaced rest hplain).file content hstill
      · left
        rw [hkept _ hbelow, hstill]
    · exact .inr hthere

theorem TransferStep.carried {fuel : Nat} (hvolumes : request.srcVolume ≠ request.dstVolume)
    (hentry : Addressable (base ++ [name]))
    (hstep : TransferStep env request fuel (base ++ [name]) (dstDir ++ [name]) session after)
    (hcarried : Carried request before base dstDir selected session) :
    Carried request before base dstDir selected after := by
  cases hstep with
  | givenUp hquiet hclean => exact hcarried.of_volumes hquiet.volumes
  | copied node begun hfind htarget hskip hbegun hcopy =>
    have hmade : Wrote request (Reaches (session.source request) (base ++ [name]) (dstDir ++ [name]))
        (dstDir ++ [name] <+: ·) session begun := by
      refine hbegun.wrote.mono (fun _ hfalse ↦ hfalse.elim) ?_
      rintro path rfl
      exact prefix_rfl
    have hbegun' := hcarried.wrote hvolumes hmade
    have hnode : (begun.source request).find (base ++ [name]) = some node := by
      rw [hbegun.wrote.source_eq hvolumes, hfind]
    obtain ⟨answer, hanswer, rfl⟩ := map_eq_some_iff.mp hcopy
    have hthere : env.Calm → node = .dir → (begun.destination request).find (dstDir ++ [name]) ≠ none := by
      intro hcalm hdir
      rw [hbegun.there hcalm (decide_eq_true hdir)]
      rintro ⟨⟩
    have heffect := copyEntry_effect hvolumes hentry htarget rfl hnode hthere hanswer
    have hanswer' : Carried request before base dstDir selected answer.2 :=
      hbegun'.wrote hvolumes heffect.wrote
    have hsource := heffect.wrote.source_eq hvolumes
    have hcurrent : Carried request before base dstDir selected
        (answer.2.current (buildPath (base ++ [name]))) := hanswer'.of_volumes rfl
    split_ifs with _ hcomplete
    · exact hanswer'
    · refine hcurrent.delete hvolumes hentry (fun rest hplain ↦ ?_) _
      have hplaced := heffect.complete hcomplete.1 rest hplain
      rw [← hsource] at hplaced
      exact hplaced.of_volumes rfl
    · exact hcurrent

theorem transferPaths_carried {fuel : Nat} (hvolumes : request.srcVolume ≠ request.dstVolume)
    (haddr : Addressable dstDir)
    (hsel : ∀ raw ∈ request.paths, ∃ name, Selected request before dstDir raw base name)
    (hafter : transferPaths env request fuel (buildPath dstDir) session = some after)
    (hcarried : Carried request before base dstDir selected session) :
    Carried request before base dstDir selected after := by
  refine Worklist.foldlM_invariant (Carried request before base dstDir selected)
    (fun middle raw next hmiddle hraw hnext ↦ ?_) hafter hcarried
  obtain ⟨name, hentry⟩ := hsel raw hraw
  split_ifs at hnext
  · cases hnext
    exact hmiddle
  · exact (transferPath_step haddr hentry hnext).carried hvolumes hentry.addressable hmiddle

def FromOneDirectory (request : TransferRequest) : Prop :=
  ∃ directory, ∀ raw ∈ request.paths, ∀ path ∈ normalize raw, parent path = directory

theorem exists_base {volumes : Bytes → Tree} (hone : FromOneDirectory request)
    (hdst : Accepted request volumes dstDir) :
    ∃ base, ∀ raw ∈ request.paths,
      ∃ name, Selected request (volumes request.srcVolume) dstDir raw base name := by
  obtain ⟨directory, hdirectory⟩ := hone
  have hparent {raw name : Bytes} {dir : List Bytes} (hraw : raw ∈ request.paths)
      (hsel : Selected request (volumes request.srcVolume) dstDir raw dir name) :
      buildPath dir = directory := by
    have hname := validName_of_isValidName (hsel.addressable.names name (by simp))
    rw [← parent_buildPath hname]
    exact hdirectory raw hraw _ hsel.normal
  cases hpaths : request.paths with
  | nil => exact ⟨[], by simp⟩
  | cons first paths =>
    have hfirst : first ∈ request.paths := hpaths ▸ mem_cons_self
    obtain ⟨base, name, hsel⟩ := hdst.paths first hfirst
    refine ⟨base, fun raw hraw ↦ ?_⟩
    rw [← hpaths] at hraw
    obtain ⟨dir, other, hother⟩ := hdst.paths raw hraw
    have hsame : dir = base := buildPath_injective hother.addressable.of_append.names
      hsel.addressable.of_append.names
      ((hparent hraw hother).trans (hparent hfirst hsel).symm)
    exact ⟨other, hsame ▸ hother⟩

/-- Every file that was below a selected entry is at its place or at the corresponding place below the
destination. -/
def FilesKept (request : TransferRequest) (before after : Bytes → Tree) : Prop :=
  ∀ raw ∈ request.paths, ∀ dir name rest content, splitSegments raw = some (dir ++ [name]) →
    (before request.srcVolume).find (dir ++ [name] ++ rest) = some (.file content) →
      (after request.srcVolume).find (dir ++ [name] ++ rest) = some (.file content) ∨
        ∃ dstDir, splitSegments request.dstPath = some dstDir ∧
          (after request.dstVolume).find (dstDir ++ [name] ++ rest) = some (.file content)

def NothingHidden (paths : List Bytes) (tree : Tree) : Prop :=
  ∀ raw ∈ paths, ∀ entry rest content, splitSegments raw = some entry →
    tree.find (entry ++ rest) = some (.file content) → Plain rest

/-- On one volume no file is in the way that the move brings or that is to be moved; to another volume
no file is hidden from the copy. -/
def Unhindered (request : TransferRequest) (volumes : Bytes → Tree) : Prop :=
  if request.srcVolume = request.dstVolume then
    request.conflict ≠ .skip → ∀ dstDir, splitSegments request.dstPath = some dstDir →
      NamedOnce request.paths (volumes request.srcVolume) dstDir ∧
        TargetsOutside request.paths (volumes request.srcVolume) dstDir
  else NothingHidden request.paths (volumes request.srcVolume)

variable {volumes : Bytes → Tree}

theorem Tracked.kept (hdst : Accepted request volumes dstDir)
    (hsame : request.srcVolume = request.dstVolume)
    (hsel : ∀ raw ∈ request.paths,
      ∃ name, Selected request (volumes request.srcVolume) dstDir raw base name)
    {moved : Bytes → Prop}
    (htracked : Tracked (volumes request.srcVolume) base dstDir (Names base request.paths) moved
      (session.source request)) : FilesKept request volumes session.volumes := by
  intro raw hraw dir name rest content hsplit hfile
  obtain ⟨other, hother⟩ := hsel raw hraw
  obtain ⟨rfl, -⟩ := split_unique hsplit hother.split
  rcases htracked.files name ⟨raw, hraw, hsplit⟩ with hsource | ⟨-, -, -, htarget⟩
  · exact .inl (hsource rest content hfile)
  · exact .inr ⟨dstDir, hdst.split, hsame ▸ htarget rest content hfile⟩

theorem Carried.kept (hdst : Accepted request volumes dstDir)
    (hsel : ∀ raw ∈ request.paths,
      ∃ name, Selected request (volumes request.srcVolume) dstDir raw base name)
    (hhidden : NothingHidden request.paths (volumes request.srcVolume))
    (hcarried : Carried request (volumes request.srcVolume) base dstDir (Names base request.paths)
      session) : FilesKept request volumes session.volumes := by
  intro raw hraw dir name rest content hsplit hfile
  obtain ⟨other, hother⟩ := hsel raw hraw
  obtain ⟨rfl, rfl⟩ := split_unique hsplit hother.split
  have hplain : Plain (dstDir ++ [name] ++ rest) := by
    refine forall_mem_append.mpr ⟨forall_mem_append.mpr ⟨?_, ?_⟩, ?_⟩
    · exact plain_of_addressable hdst.addressable
    · intro part hpart
      exact plain_of_addressable hother.addressable part (mem_append_right _ hpart)
    · exact hhidden raw hraw _ rest content hsplit hfile
  refine (hcarried.files name rest content ⟨raw, hraw, hsplit⟩ hplain hfile).imp_right fun hthere ↦ ?_
  exact ⟨dstDir, hdst.split, hthere⟩

theorem runAccepted_kept {fuel : Nat} {begun : Session} (hmove : request.op = .move)
    (hone : FromOneDirectory request) (hfree : Unhindered request volumes)
    (hdst : Accepted request volumes dstDir) (hbegun : begun.volumes = volumes)
    (hrun : runAccepted env request fuel (buildPath dstDir) begun = some session) :
    FilesKept request volumes session.volumes := by
  obtain ⟨base, hsel⟩ := exists_base hone hdst
  have hsource : begun.source request = volumes request.srcVolume := by rw [Session.source, hbegun]
  unfold runAccepted at hrun
  unfold Unhindered at hfree
  by_cases hsame : request.srcVolume = request.dstVolume
  · rw [if_pos ⟨hmove, hsame⟩] at hrun
    rw [if_pos hsame] at hfree
    cases hrun
    by_cases hempty : request.paths = []
    · intro raw hraw
      rw [hempty] at hraw
      cases hraw
    · obtain ⟨raw, hraw⟩ := exists_mem_of_ne_nil _ hempty
      obtain ⟨name, hentry⟩ := hsel raw hraw
      have hstart : Tracked (volumes request.srcVolume) base dstDir (Names base request.paths)
          (Names base []) (begun.source request) := hsource ▸ .refl _ _ _ _ _
      have htracked : Tracked (volumes request.srcVolume) base dstDir (Names base request.paths)
          (Names base request.paths) ((runInstant env request (buildPath dstDir) request.paths
            (begun.directed (buildPath dstDir)).instantly).source request) :=
        runInstant_tracked hdst.addressable (hentry.apart hsame).1 hsel
          (fun hskip ↦ (hfree hskip dstDir hdst.split).1)
          (fun hskip ↦ (hfree hskip dstDir hdst.split).2) (nil_append _).symm hstart
      exact htracked.kept hdst hsame hsel
  · rw [if_neg fun hboth ↦ hsame hboth.2] at hrun
    rw [if_neg hsame] at hfree
    obtain ⟨last, hlast, rfl⟩ := map_eq_some_iff.mp hrun
    obtain ⟨measured, hmeasured, hrest⟩ := measureAndCopy_cases hlast
    have hstart : Carried request (volumes request.srcVolume) base dstDir (Names base request.paths)
        begun := ⟨fun _ _ hfind ↦ hsource ▸ hfind, fun _ _ _ _ _ hfile ↦ .inl (hsource ▸ hfile)⟩
    have hquiet := measurePaths_quiet hmeasured
    have hcarried : Carried request (volumes request.srcVolume) base dstDir
        (Names base request.paths) last := by
      rcases hrest with ⟨hquiet', -⟩ | hcopy
      · exact hstart.of_volumes (hquiet'.volumes.trans hquiet.volumes)
      · exact transferPaths_carried hsame hdst.addressable hsel hcopy
          (hstart.of_volumes hquiet.volumes)
    have hkept := hcarried.kept hdst hsel hfree
    exact hkept

/-- A move whose entries come from one directory loses no file where nothing is hidden or in the way. -/
theorem move_keeps_files {volumes : Bytes → Volume} (hmove : request.op = .move)
    (hone : FromOneDirectory request)
    (hfree : Unhindered request fun volume ↦ (volumes volume).toFileTree) :
    (Worklist.Settles fun fuel ↦
        run env request fuel fun volume ↦ (volumes volume).toFileTree) ∧
      ∀ fuel session,
        run env request fuel (fun volume ↦ (volumes volume).toFileTree) = some session →
          FilesKept request (fun volume ↦ (volumes volume).toFileTree) session.volumes := by
  refine ⟨run_settles env request volumes, fun fuel session hrun ↦ ?_⟩
  rcases run_cases hrun with ⟨hquiet, -⟩ | ⟨dstDir, begun, hdst, hquiet, -, haccepted⟩
  · intro raw hraw dir name rest content hsplit hfile
    rw [hquiet.volumes]
    exact .inl hfile
  · exact runAccepted_kept hmove hone hfree hdst hquiet.volumes haccepted

def fileAndDirectory : Volume :=
  .ofEntries [([ascii "a"], .file [1]), ([ascii "b"], .dir)] (by decide) (by decide) (by decide)
    (by decide)

def partInDirectory : Volume :=
  .ofEntries [([ascii "a"], .dir), ([ascii "a", ascii "x.part"], .file [1])] (by decide) (by decide)
    (by decide) (by decide)

def moveTo (paths : List Bytes) (dstVolume dstPath : Bytes) : TransferRequest where
  op := .move
  conflict := .overwrite
  srcVolume := ascii "data"
  paths
  dstVolume
  dstPath

theorem move_keeps_files_once : ∃ session ∈ run calm (moveTo [ascii "/a"] (ascii "data") (ascii "/b")) 1
        fun _ ↦ fileAndDirectory.toFileTree,
      FilesKept (moveTo [ascii "/a"] (ascii "data") (ascii "/b")) (fun _ ↦ fileAndDirectory.toFileTree)
        session.volumes := by
  have hrun : ∃ session, run calm (moveTo [ascii "/a"] (ascii "data") (ascii "/b")) 1
      (fun _ ↦ fileAndDirectory.toFileTree) = some session := by
    rw [← isSome_iff_exists]
    decide +kernel
  have hdst : splitSegments (ascii "/b") = some [ascii "b"] := by decide
  have hpath : splitSegments (ascii "/a") = some ([] ++ [ascii "a"]) := by decide
  have hfree : fileAndDirectory.find [ascii "b", ascii "a"] = none := by decide
  have hsame : (moveTo [ascii "/a"] (ascii "data") (ascii "/b")).srcVolume =
      (moveTo [ascii "/a"] (ascii "data") (ascii "/b")).dstVolume := rfl
  obtain ⟨session, hsession⟩ := hrun
  refine ⟨session, hsession, (move_keeps_files rfl ⟨[slash], by decide⟩ ?_).2 1 session hsession⟩
  rw [Unhindered, if_pos hsame]
  intro _ dstDir hdstDir
  obtain rfl := Option.some.inj (hdst.symm.trans hdstDir)
  refine ⟨pairwise_singleton _ _, forall_mem_singleton.mpr ?_⟩
  intro dir name content hsplit _ hfile
  obtain ⟨rfl, rfl⟩ := split_unique hpath hsplit
  rw [singleton_append, hfree] at hfile
  cases hfile

theorem not_filesKept {before after : Bytes → Tree} {dir rest : List Bytes} {content : Bytes}
    (hraw : raw ∈ request.paths) (hsplit : splitSegments raw = some (dir ++ [name]))
    (hdst : splitSegments request.dstPath = some dstDir)
    (hfile : (before request.srcVolume).find (dir ++ [name] ++ rest) = some (.file content))
    (hsource : (after request.srcVolume).find (dir ++ [name] ++ rest) = none)
    (htarget : (after request.dstVolume).find (dstDir ++ [name] ++ rest) = none) :
    ¬FilesKept request before after := by
  intro hkept
  rcases hkept raw hraw dir name rest content hsplit hfile with hstill | ⟨same, hsame, hthere⟩
  · rw [hsource] at hstill
    cases hstill
  · obtain rfl := Option.some.inj (hdst.symm.trans hsame)
    rw [htarget] at hthere
    cases hthere

/-- A file that is named twice is lost, and so is the part of an upload. -/
theorem move_loses_files :
    (FromOneDirectory (moveTo [ascii "/a", ascii "//a"] (ascii "data") (ascii "/b")) ∧
      ∃ session ∈ run calm (moveTo [ascii "/a", ascii "//a"] (ascii "data") (ascii "/b")) 1
          fun _ ↦ fileAndDirectory.toFileTree,
        ¬FilesKept (moveTo [ascii "/a", ascii "//a"] (ascii "data") (ascii "/b"))
          (fun _ ↦ fileAndDirectory.toFileTree) session.volumes) ∧
    FromOneDirectory (moveTo [ascii "/a"] (ascii "sd") (ascii "/")) ∧
      ∃ session ∈ run calm (moveTo [ascii "/a"] (ascii "sd") (ascii "/")) 10
          fun volume ↦ if volume = ascii "data" then partInDirectory.toFileTree else .empty,
        ¬FilesKept (moveTo [ascii "/a"] (ascii "sd") (ascii "/"))
          (fun volume ↦ if volume = ascii "data" then partInDirectory.toFileTree else .empty)
          session.volumes := by
  have htwice : ∃ session ∈ run calm (moveTo [ascii "/a", ascii "//a"] (ascii "data") (ascii "/b")) 1
      fun _ ↦ fileAndDirectory.toFileTree,
      (session.volumes (ascii "data")).find [ascii "a"] = none ∧
        (session.volumes (ascii "data")).find [ascii "b", ascii "a"] = none := by
    decide +kernel
  have hpart : ∃ session ∈ run calm (moveTo [ascii "/a"] (ascii "sd") (ascii "/")) 10
      fun volume ↦ if volume = ascii "data" then partInDirectory.toFileTree else .empty,
      (session.volumes (ascii "data")).find [ascii "a", ascii "x.part"] = none ∧
        (session.volumes (ascii "sd")).find [ascii "a", ascii "x.part"] = none := by
    decide +kernel
  obtain ⟨session, hsession, hsource, htarget⟩ := htwice
  obtain ⟨session', hsession', hsource', htarget'⟩ := hpart
  have hpath : splitSegments (ascii "/a") = some ([] ++ [ascii "a"]) := by decide
  have hdst : splitSegments (ascii "/b") = some [ascii "b"] := by decide
  have hroot : splitSegments (ascii "/") = some [] := by decide
  have hfile : fileAndDirectory.find ([] ++ [ascii "a"] ++ []) = some (.file [1]) := by decide
  have hfile' : partInDirectory.find ([] ++ [ascii "a"] ++ [ascii "x.part"]) = some (.file [1]) := by
    decide
  refine ⟨⟨⟨[slash], by decide⟩, session, hsession, ?_⟩, ⟨[slash], by decide⟩, session', hsession', ?_⟩
  · exact not_filesKept mem_cons_self hpath hdst hfile hsource htarget
  · exact not_filesKept mem_cons_self hpath hroot hfile' hsource' htarget'

end DhcpServer.Files.TransferEngine
