import DhcpServer.Files.TransferRun

/-!
# What a copy to another volume leaves

A walk of `copyEntry` writes nowhere but at the places of the files it copies and at the parts beside
them, and where it reports a complete copy, every file that it could see is at its place. The source
does not change meanwhile, so that one tree says what the walk sees.
-/

namespace DhcpServer.Files.TransferEngine

open Library Storage.PathUtil List FileManager

variable {env : Environment} {request : TransferRequest} {tree : Tree}
  {source target rest path : List Bytes} {session after : Session} {entries : List FileEntry}
  {entry : FileEntry} {visit visit' later : Visit}

/-- No name of the path is reserved for the parts of uploads. -/
def Plain (path : List Bytes) : Prop := ∀ name ∈ path, isPartName name = false

instance (path : List Bytes) : Decidable (Plain path) := inferInstanceAs (Decidable (∀ _ ∈ _, _))

theorem plain_of_addressable (haddr : Addressable path) : Plain path := fun name hname ↦
  (validName_of_isValidName (haddr.names name hname)).not_part

theorem not_plain_partOf (haddr : Addressable path) (hroot : path ≠ []) :
    ¬Plain (FileSink.partOf path) := by
  cases path using reverseRecOn with
  | nil => exact absurd rfl hroot
  | append_singleton dir name =>
    intro hplain
    have hname := (validName_of_isValidName (haddr.names name (by simp))).ne_nil
    have hpart : isPartName (name ++ kUploadPartSuffix) := by
      have hlength : 0 < name.length := length_pos_iff.mpr hname
      have hsuffix : kUploadPartSuffix <:+ name ++ kUploadPartSuffix := suffix_append _ _
      simp [isPartName, isSuffixOf_iff_suffix.mpr hsuffix, hlength]
    rw [FileSink.partOf_concat] at hplain
    have hnot := hplain (name ++ kUploadPartSuffix) (by simp)
    rw [hpart] at hnot
    cases hnot

def Reaches (tree : Tree) (source target path : List Bytes) : Prop :=
  ∃ rest content, Addressable (target ++ rest) ∧ tree.find (source ++ rest) = some (.file content) ∧
    (path = target ++ rest ∨ path = FileSink.partOf (target ++ rest))

theorem Reaches.of_plain (hreaches : Reaches tree source target path) (hroot : target ≠ [])
    (hplain : Plain path) :
    ∃ rest content, path = target ++ rest ∧ tree.find (source ++ rest) = some (.file content) := by
  obtain ⟨rest, content, haddr, hfind, rfl | rfl⟩ := hreaches
  · exact ⟨rest, content, rfl, hfind⟩
  · exact absurd hplain (not_plain_partOf haddr (by simp [hroot]))

/-- A file of the source is at its place, and the place of a directory is taken. -/
structure Placed (env : Environment) (request : TransferRequest) (tree : Tree)
    (source target rest : List Bytes) (session : Session) : Prop where
  file : ∀ content, tree.find (source ++ rest) = some (.file content) →
    (session.destination request).find (target ++ rest) = some (.file content)
  dir : env.Calm → tree.find (source ++ rest) = some .dir →
    (session.destination request).find (target ++ rest) ≠ none

theorem Placed.wrote {touched made : List Bytes → Prop}
    (hplaced : Placed env request tree source target path session)
    (hwrote : Wrote request touched made session after) (houtside : ¬touched (target ++ path)) :
    Placed env request tree source target path after where
  file content hfile := (hwrote.grows.files _ content houtside).mpr (hplaced.file content hfile)
  dir hcalm hdir := hwrote.grows.find_ne_none (hplaced.dir hcalm hdir) houtside

theorem Placed.of_volumes (hplaced : Placed env request tree source target path session)
    (hvolumes : after.volumes = session.volumes) :
    Placed env request tree source target path after := by
  have hwrote : Wrote request (fun _ ↦ False) (fun _ ↦ False) session after := .of_volumes hvolumes
  exact hplaced.wrote hwrote id

theorem Placed.of_file {content : Bytes} (hfind : tree.find (source ++ rest) = some (.file content))
    (hthere : (session.destination request).find (target ++ rest) = some (.file content)) :
    Placed env request tree source target rest session where
  file same hsame := by rw [hthere, ← hfind, hsame]
  dir _ hdir := by
    rw [hfind] at hdir
    cases hdir

theorem Placed.of_dir (hfind : tree.find (source ++ rest) = some .dir)
    (hthere : env.Calm → (session.destination request).find (target ++ rest) ≠ none) :
    Placed env request tree source target rest session where
  file same hsame := by
    rw [hfind] at hsame
    cases hsame
  dir hcalm _ := hthere hcalm

structure VisitEffect (env : Environment) (request : TransferRequest) (tree : Tree)
    (source target rest : List Bytes) (entries : List FileEntry) (visit visit' : Visit) : Prop where
  wrote : Wrote request (Reaches tree source target) (target <+: ·) visit.session visit'.session
  keeps : visit'.ok = true → ∀ path, Plain (target ++ path) →
    Placed env request tree source target path visit.session →
      Placed env request tree source target path visit'.session
  complete : visit'.ok = true → visit.ok = true ∧ ∀ entry ∈ entries,
    Addressable (target ++ (rest ++ [entry.name])) ∧
      (entry.isDir = true → pairAt source target (rest ++ [entry.name]) ∈ visit'.found) ∧
        Placed env request tree source target (rest ++ [entry.name]) visit'.session
  found : ∀ pair ∈ visit.found, pair ∈ visit'.found

theorem EntryStep.effect (hsource : visit.session.source request = tree)
    (hentry : entry ∈ visible tree (source ++ rest))
    (hstep : EntryStep env request source target rest entry visit visit') :
    VisitEffect env request tree source target rest [entry] visit visit' := by
  obtain ⟨-, node, hnode, hsame⟩ := mem_visible.mp hentry
  rw [append_assoc] at hnode
  cases hstep with
  | failed after hvolumes hwalks hcopies hclean =>
    exact ⟨.of_volumes hvolumes, by rintro ⟨⟩, by rintro ⟨⟩, fun _ hpair ↦ hpair⟩
  | entered after hdir haddr hwrote hwalks hcopies hcounted hthere =>
    have hisDir : node = .dir := (entryOf_isDir entry.name node).mp (hsame ▸ hdir)
    refine ⟨hwrote.mono (fun _ hfalse ↦ hfalse.elim) ?_, fun _ path _ hplaced ↦ hplaced.wrote hwrote id,
      fun hok ↦ ⟨hok, forall_mem_singleton.mpr ⟨haddr, fun _ ↦ ?_, ?_⟩⟩, ?_⟩
    · rintro path rfl
      exact prefix_append _ _
    · exact mem_append_right _ mem_cons_self
    · exact .of_dir (hisDir ▸ hnode) hthere
    · exact fun pair hpair ↦ mem_append_left _ hpair
  | file answer hdir haddr houtcome =>
    rw [← hsource]
    have hplaced (hok : answer.1 = true) : Placed env request (visit.session.source request)
        source target (rest ++ [entry.name]) answer.2 := by
      obtain ⟨content, hfind, hthere, -⟩ := houtcome.complete hok
      exact .of_file hfind hthere
    refine ⟨houtcome.wrote.mono ?_ fun _ hfalse ↦ hfalse.elim, fun hok path hplain hbefore ↦ ?_,
      fun hok ↦ ?_, fun _ hpair ↦ hpair⟩
    · rintro path ⟨⟨content, hfind⟩, hpath⟩
      exact ⟨_, content, haddr, hfind, hpath⟩
    · have hok' : answer.1 = true := (Bool.and_eq_true _ _ ▸ hok).2
      by_cases hsame : path = rest ++ [entry.name]
      · rw [hsame]
        exact hplaced hok'
      · refine hbefore.wrote houtcome.wrote ?_
        rintro ⟨-, hpath | hpath⟩
        · exact hsame (append_cancel_left hpath)
        · exact not_plain_partOf haddr (by simp) (hpath ▸ hplain)
    · obtain ⟨hbefore, hok'⟩ := Bool.and_eq_true _ _ ▸ hok
      refine ⟨hbefore, forall_mem_singleton.mpr ⟨haddr, ?_, hplaced hok'⟩⟩
      rw [hdir]
      rintro ⟨⟩

theorem VisitEffect.trans {more : List FileEntry}
    (hfirst : VisitEffect env request tree source target rest entries visit visit')
    (hsecond : VisitEffect env request tree source target rest more visit' later) :
    VisitEffect env request tree source target rest (entries ++ more) visit later where
  wrote := hfirst.wrote.trans hsecond.wrote
  keeps hok path hplain hplaced :=
    hsecond.keeps hok path hplain (hfirst.keeps (hsecond.complete hok).1 path hplain hplaced)
  complete hok := by
    obtain ⟨hmiddle, hmore⟩ := hsecond.complete hok
    obtain ⟨hbefore, hentries⟩ := hfirst.complete hmiddle
    refine ⟨hbefore, forall_mem_append.mpr ⟨fun entry hentry ↦ ?_, hmore⟩⟩
    obtain ⟨haddr, hdir, hplaced⟩ := hentries entry hentry
    exact ⟨haddr, fun hisDir ↦ hsecond.found _ (hdir hisDir),
      hsecond.keeps hok _ (plain_of_addressable haddr) hplaced⟩
  found pair hpair := hsecond.found pair (hfirst.found pair hpair)

theorem visitEntries_effect (env : Environment) (hvolumes : request.srcVolume ≠ request.dstVolume)
    (hsource : ∀ name ∈ source ++ rest, EntryName name) (htarget : Addressable (target ++ rest))
    (hentries : ∀ entry ∈ entries, entry ∈ visible tree (source ++ rest)) (visit : Visit)
    (htree : visit.session.source request = tree) :
    VisitEffect env request tree source target rest entries visit
      (entries.foldl (visitEntry env request (pairAt source target rest)) visit) := by
  induction entries generalizing visit with
  | nil =>
    exact ⟨.of_volumes rfl, fun _ _ _ hplaced ↦ hplaced, fun hok ↦ ⟨hok, by simp⟩, fun _ hpair ↦ hpair⟩
  | cons entry entries ih =>
    obtain ⟨hentry, hentries⟩ := forall_mem_cons.mp hentries
    have hstep := (visitEntry_step env request hsource htarget visit entry).effect htree hentry
    exact hstep.trans (ih hentries _ ((hstep.wrote.source_eq hvolumes).trans htree))

/-- The state of a walk over a tree: the files that are not at their places yet lie below directories
of the queue, unless the walk has failed. -/
structure Copying (env : Environment) (request : TransferRequest) (tree : Tree)
    (source target : List Bytes) (session : Session) (queue : List DirPair)
    (progress : Bool × Session) : Prop where
  wrote : Wrote request (Reaches tree source target) (target <+: ·) session progress.2
  pairs : ∀ pair ∈ queue, Below source target pair
  files : progress.1 = true → ∀ path, Plain (target ++ path) →
    Placed env request tree source target path progress.2 ∨
      ∃ dir behind, behind ≠ [] ∧ path = dir ++ behind ∧ Addressable (target ++ dir) ∧
        pairAt source target dir ∈ queue

theorem VisitEffect.below (hvisit : VisitEffect env request tree source target rest
      (visible tree (source ++ rest)) visit visit')
    (hok : visit'.ok) {behind : List Bytes} (hbehind : behind ≠ [])
    (hplain : Plain (target ++ (rest ++ behind))) :
    Placed env request tree source target (rest ++ behind) visit'.session ∨
      ∃ dir further, further ≠ [] ∧ rest ++ behind = dir ++ further ∧ Addressable (target ++ dir) ∧
        pairAt source target dir ∈ visit'.found := by
  by_cases hfind : ∃ node, tree.find (source ++ (rest ++ behind)) = some node
  · obtain ⟨node, hfind⟩ := hfind
    obtain ⟨name, further, rfl⟩ := exists_cons_of_ne_nil hbehind
    have hname : isPartName name = false := hplain name (by simp)
    have hentry {node : Node Bytes} (hnode : tree.find (source ++ rest ++ [name]) = some node) :
        entryOf name node ∈ visible tree (source ++ rest) := by
      rw [mem_visible, entryOf_name]
      exact ⟨hname, node, hnode, rfl⟩
    have hlist : source ++ (rest ++ name :: further) = source ++ rest ++ [name] ++ further := by simp
    rw [hlist] at hfind
    by_cases hlast : further = []
    · subst hlast
      rw [append_nil] at hfind
      obtain ⟨-, -, hplaced⟩ := (hvisit.complete hok).2 _ (hentry hfind)
      rw [entryOf_name] at hplaced
      exact .inl hplaced
    · have hdir := FileTree.find_dir_of_append (by simp) hlast hfind
      obtain ⟨haddr, hfound, -⟩ := (hvisit.complete hok).2 _ (hentry hdir)
      exact .inr ⟨rest ++ [name], further, hlast, by simp, haddr, hfound rfl⟩
  · left
    exact ⟨fun content hcontent ↦ absurd ⟨_, hcontent⟩ hfind, fun _ hdir ↦ absurd ⟨_, hdir⟩ hfind⟩

theorem Copying.step (hvolumes : request.srcVolume ≠ request.dstVolume)
    (hsource : ∀ name ∈ source, EntryName name) (htree : session.source request = tree)
    {pair : DirPair} {queue found : List DirPair} {progress progress' : Bool × Session}
    (hcopying : Copying env request tree source target session (pair :: queue) progress)
    (hstep : copyDir env request progress pair = .inr (progress', found)) :
    Copying env request tree source target session (queue ++ found) progress' := by
  obtain ⟨⟨rest, htarget, rfl⟩, hqueue⟩ := forall_mem_cons.mp hcopying.pairs
  have hnames := entryNames_append hsource htarget
  have htree' : progress.2.source request = tree := (hcopying.wrote.source_eq hvolumes).trans htree
  have hpairs : ∀ pair ∈ queue ++ found, Below source target pair := by
    obtain ⟨names, -, hchildren, rfl⟩ := (copyDir_shape hsource htarget hstep).found
    refine forall_mem_append.mpr ⟨hqueue, fun pair hpair ↦ ?_⟩
    obtain ⟨name, hname, rfl⟩ := mem_map.mp hpair
    exact ⟨_, hchildren name hname, rfl⟩
  unfold copyDir at hstep
  dsimp only at hstep
  split_ifs at hstep
  split at hstep
  case h_1 =>
    cases hstep
    exact ⟨hcopying.wrote.trans (.of_volumes rfl), hpairs, by rintro ⟨⟩⟩
  case h_2 entries hscan =>
    obtain ⟨names, habs, -, rfl⟩ := scan_eq_ok hscan
    obtain ⟨rfl, -⟩ := absolute_buildPath_eq hnames habs
    cases hstep
    rw [htree'] at hpairs ⊢
    have hwalked : Wrote request (Reaches tree source target) (target <+: ·) progress.2
        (progress.2.tick.scanned (buildPath (source ++ rest))) := .of_volumes rfl
    have hvisit := visitEntries_effect env hvolumes hnames htarget
      (fun _ hentry ↦ hentry) { session := progress.2.tick.scanned (buildPath (source ++ rest)) } htree'
    refine ⟨(hcopying.wrote.trans hwalked).trans hvisit.wrote, hpairs, fun hok path hplain ↦ ?_⟩
    obtain ⟨hbefore, hok'⟩ := Bool.and_eq_true _ _ ▸ hok
    rcases hcopying.files hbefore path hplain with hplaced | ⟨dir, behind, hbehind, rfl, hdir, hqueued⟩
    · exact .inl (hvisit.keeps hok' path hplain (hplaced.of_volumes rfl))
    · rcases mem_cons.mp hqueued with hsame | hlater
      · obtain rfl : dir = rest := append_cancel_left
          (buildPath_injective hdir.names htarget.names (congrArg DirPair.dst hsame))
        refine (hvisit.below hok' hbehind hplain).imp_right ?_
        rintro ⟨dir', further, hfurther, hpath, haddr, hfound⟩
        exact ⟨dir', further, hfurther, hpath, haddr, mem_append_right _ hfound⟩
      · exact .inr ⟨dir, behind, hbehind, rfl, hdir, mem_append_left _ hlater⟩

structure CopyEffect (env : Environment) (request : TransferRequest) (tree : Tree)
    (source target : List Bytes) (session : Session) (answer : Bool × Session) : Prop where
  wrote : Wrote request (Reaches tree source target) (target <+: ·) session answer.2
  complete : answer.1 = true → ∀ path, Plain (target ++ path) →
    Placed env request tree source target path answer.2

theorem copyEntry_effect (hvolumes : request.srcVolume ≠ request.dstVolume) {node : Node Bytes}
    (hsource : Addressable source) (htarget : Addressable target) (htree : session.source request = tree)
    (hnode : tree.find source = some node)
    (hthere : env.Calm → node = .dir → (session.destination request).find target ≠ none)
    {fuel : Nat} {answer : Bool × Session}
    (hanswer : copyEntry env request fuel (buildPath source) (buildPath target) (node = .dir)
      session = some answer) : CopyEffect env request tree source target session answer := by
  have hnames := hsource.entryNames
  have htop : (⟨buildPath source, buildPath target⟩ : DirPair) = pairAt source target [] := by
    rw [pairAt, append_nil, append_nil]
  unfold copyEntry at hanswer
  cases node with
  | dir =>
    rw [if_pos (by rfl), htop] at hanswer
    refine Worklist.invariant (Copying env request tree source target session)
      (CopyEffect env request tree source target session) ?_ ?_ ?_ hanswer ?_
    · intro pair queue progress progress' found hcopying hstep
      exact hcopying.step hvolumes hnames htree hstep
    · intro pair queue progress answer hcopying hstep
      rw [(copyDir_stop hstep).1]
      exact ⟨hcopying.wrote, by rintro ⟨⟩⟩
    · intro progress hcopying
      refine ⟨hcopying.wrote, fun hok path hplain ↦ (hcopying.files hok path hplain).resolve_right ?_⟩
      rintro ⟨dir, behind, -, -, -, hqueued⟩
      cases hqueued
    · refine ⟨.of_volumes rfl, ?_, fun _ path _ ↦ ?_⟩
      · exact forall_mem_singleton.mpr ⟨[], by rwa [append_nil], rfl⟩
      · by_cases hpath : path = []
        · left
          rw [hpath]
          refine .of_dir ?_ fun hcalm ↦ ?_
          · rwa [append_nil]
          · rw [append_nil]
            exact hthere hcalm rfl
        · exact .inr ⟨[], path, hpath, rfl, by rwa [append_nil], mem_cons_self⟩
  | file content =>
    rw [if_neg (by simp)] at hanswer
    cases hanswer
    have houtcome := copyFile_outcome env request hnames htarget session
    subst htree
    refine ⟨houtcome.wrote.mono ?_ fun _ hfalse ↦ hfalse.elim, fun hok path _ ↦ ?_⟩
    · rintro path ⟨⟨content, hfind⟩, hpath⟩
      refine ⟨[], content, ?_, ?_, ?_⟩
      · rwa [append_nil]
      · rwa [append_nil]
      · rwa [append_nil]
    · obtain ⟨content', hfind, hthere', -⟩ := houtcome.complete hok
      -- there is nothing below a file
      by_cases hpath : path = []
      · rw [hpath]
        have hfind' : (session.source request).find (source ++ []) = some (.file content') := by
          rwa [append_nil]
        refine .of_file hfind' ?_
        rwa [append_nil]
      · have hnone {below : Node Bytes} : (session.source request).find (source ++ path) ≠ some below := by
          intro hfile
          have hsame := FileTree.eq_of_file_below hnode hfile (prefix_append source path)
          exact hpath (append_right_eq_self.mp hsame)
        exact ⟨fun _ hfile ↦ absurd hfile hnone, fun _ hdir ↦ absurd hdir hnone⟩

end DhcpServer.Files.TransferEngine
