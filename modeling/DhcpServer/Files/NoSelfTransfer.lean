import DhcpServer.Files.TransferRun

/-!
# No transfer into itself

The check of a request refuses a destination inside a selected entry, but not a selected entry itself.
Where no selected entry is the destination, nothing is copied into itself. The walks end and visit no
directory twice in either case: a directory is found by the directory it lies in, and no path is deeper
than the path policy allows.
-/

namespace DhcpServer.Files.TransferEngine

open Library Storage.PathUtil List

variable {env : Environment} {request : TransferRequest} {source target rest : List Bytes}
  {session after : Session}

/-- What a part of the run adds to the books: walks that meet no directory twice, and copies of what
lies below one selected entry. -/
structure Booked (source target : List Bytes) (session session' : Session) : Prop where
  walks : ∀ walk ∈ session'.walks, walk ∈ session.walks ∨ walk.Nodup
  copies : ∀ pair ∈ session'.copies, pair ∈ session.copies ∨ Below source target pair

theorem Booked.of_quiet (hquiet : Quiet session after) : Booked source target session after where
  walks _ hwalk := .inl (hquiet.walks ▸ hwalk)
  copies _ hpair := .inl (hquiet.copies ▸ hpair)

theorem Booked.trans {later : Session} (hfirst : Booked source target session after)
    (hsecond : Booked source target after later) : Booked source target session later where
  walks walk hwalk := (hsecond.walks walk hwalk).elim (hfirst.walks walk) .inr
  copies pair hpair := (hsecond.copies pair hpair).elim (hfirst.copies pair) .inr

def finder (top path : Bytes) : Option Bytes := if path = top then none else some (parent path)

theorem validNames_append (hsource : Addressable source) (htarget : Addressable (target ++ rest)) :
    ∀ name ∈ source ++ rest, isValidName name := by
  intro name hmem
  rcases mem_append.mp hmem with hold | hnew
  · exact hsource.names name hold
  · exact htarget.names name (mem_append_right target hnew)

theorem finder_child {name : Bytes} (hsource : Addressable source)
    (hchild : Addressable (target ++ (rest ++ [name]))) :
    finder (buildPath source) (buildPath (source ++ (rest ++ [name]))) =
      some (buildPath (source ++ rest)) := by
  have hname : isValidName name := hchild.names name (by simp)
  have hne : buildPath (source ++ (rest ++ [name])) ≠ buildPath source := by
    intro hsame
    have hlist := buildPath_injective (validNames_append hsource hchild) hsource.names hsame
    simpa using congrArg List.length hlist
  rw [finder, if_neg hne, ← append_assoc, parent_buildPath (validName_of_isValidName hname)]

theorem nodup_children {names : List Bytes} (hsource : Addressable source) (hnodup : names.Nodup)
    (hchildren : ∀ name ∈ names, Addressable (target ++ (rest ++ [name]))) :
    (names.map fun name ↦ buildPath (source ++ (rest ++ [name]))).Nodup := by
  refine List.Nodup.map_on (fun left hleft right hright hsame ↦ ?_) hnodup
  have hlist := buildPath_injective (validNames_append hsource (hchildren left hleft))
    (validNames_append hsource (hchildren right hright)) hsame
  exact singleton_inj.mp (append_cancel_left (append_cancel_left hlist))

/-- The state of a walk: what it has scanned, and what is in its queue. -/
structure Walking (source target : List Bytes) (session : Session) (queue : List DirPair)
    (session' : Session) : Prop where
  pairs : ∀ pair ∈ queue, Below source target pair
  copies : ∀ pair ∈ session'.copies, pair ∈ session.copies ∨ Below source target pair
  walks : ∃ walk, session'.walks = walk :: session.walks ∧
    Worklist.FoundOnce (finder (buildPath source)) walk (queue.map DirPair.src)

theorem Walking.booked {queue : List DirPair} (hwalking : Walking source target session queue after) :
    Booked source target session after where
  walks walk hwalk := by
    obtain ⟨visited, hwalks, honce⟩ := hwalking.walks
    rw [hwalks] at hwalk
    rcases mem_cons.mp hwalk with rfl | hold
    · exact .inr honce.nodup.of_append_left
    · exact .inl hold
  copies := hwalking.copies

theorem Walking.step (hsource : Addressable source) {queue found : List DirPair} {pair : DirPair}
    {progress progress' : Bool × Session}
    (hwalking : Walking source target session (pair :: queue) progress.2)
    (hstep : copyDir env request progress pair = .inr (progress', found)) :
    Walking source target session (queue ++ found) progress'.2 := by
  obtain ⟨⟨rest, htarget, rfl⟩, hqueue⟩ := forall_mem_cons.mp hwalking.pairs
  have hshape := copyDir_shape hsource.entryNames htarget hstep
  obtain ⟨names, hnodup, hchildren, hfound⟩ := hshape.found
  refine ⟨?_, ?_, ?_⟩
  · refine forall_mem_append.mpr ⟨hqueue, fun pair hpair ↦ ?_⟩
    rw [hfound] at hpair
    obtain ⟨name, hname, rfl⟩ := mem_map.mp hpair
    exact ⟨_, hchildren name hname, rfl⟩
  · intro pair hpair
    exact (hshape.copies pair hpair).elim (hwalking.copies pair) .inr
  · obtain ⟨walk, hwalks, honce⟩ := hwalking.walks
    refine ⟨walk ++ [buildPath (source ++ rest)], ?_, ?_⟩
    · rw [hshape.walks, Session.scanned, hwalks]
    · rw [map_append, hfound, map_map]
      refine honce.step (nodup_children hsource hnodup hchildren) fun next hnext ↦ ?_
      obtain ⟨name, hname, rfl⟩ := mem_map.mp hnext
      exact finder_child hsource (hchildren name hname)

theorem copyEntry_booked (hsource : Addressable source) (htarget : Addressable target) {fuel : Nat}
    {srcIsDir : Bool} {answer : Bool × Session}
    (hanswer : copyEntry env request fuel (buildPath source) (buildPath target) srcIsDir session =
      some answer) : Booked source target session answer.2 := by
  have htop : Below source target ⟨buildPath source, buildPath target⟩ :=
    ⟨[], by rwa [append_nil], by rw [pairAt, append_nil, append_nil]⟩
  unfold copyEntry at hanswer
  split_ifs at hanswer
  · refine Worklist.invariant (fun queue progress ↦ Walking source target session queue progress.2)
      (fun answer ↦ Booked source target session answer.2) ?_ ?_ (fun _ hwalking ↦ hwalking.booked)
      hanswer ?_
    · intro pair queue progress progress' found hwalking hstep
      exact hwalking.step hsource hstep
    · intro pair queue progress answer hwalking hstep
      rw [(copyDir_stop hstep).1]
      exact hwalking.booked
    · refine ⟨by simpa using htop, fun _ hpair ↦ .inl hpair, [], rfl, by simp, ?_⟩
      intro path hpath earlier hearlier
      obtain rfl : path = buildPath source := by simpa using hpath
      rw [finder, if_pos rfl] at hearlier
      cases hearlier
  · cases hanswer
    have houtcome := copyFile_outcome env request hsource.entryNames htarget session
    refine ⟨fun walk hwalk ↦ .inl (houtcome.walks ▸ hwalk), fun pair hpair ↦ ?_⟩
    rw [houtcome.copies] at hpair
    refine (mem_append.mp hpair).imp_right fun hnew ↦ ?_
    split_ifs at hnew
    · rw [mem_singleton.mp hnew]
      exact htop
    · cases hnew

theorem deleteSource_booked (path : Bytes) (srcIsDir : Bool) (session : Session) :
    Booked source target session (deleteSource env request path srcIsDir session) := by
  unfold deleteSource
  dsimp only
  split
  · exact ⟨fun _ hwalk ↦ .inl hwalk, fun _ hpair ↦ .inl hpair⟩
  · exact ⟨fun _ hwalk ↦ .inl hwalk, fun _ hpair ↦ .inl hpair⟩

theorem copyAndDelete_booked (hsource : Addressable source) (htarget : Addressable target) {fuel : Nat}
    {srcIsDir : Bool}
    (hafter : copyAndDelete env request fuel (buildPath source) (buildPath target) srcIsDir
      session = some after) : Booked source target session after := by
  obtain ⟨answer, hanswer, rfl⟩ := Option.map_eq_some_iff.mp hafter
  have hbooked := copyEntry_booked hsource htarget hanswer
  have hcurrent : Booked source target session (answer.2.current (buildPath source)) :=
    ⟨hbooked.walks, hbooked.copies⟩
  split_ifs
  · exact hbooked
  · exact hcurrent.trans (deleteSource_booked _ _ _)
  · exact hcurrent

theorem TransferStep.booked (hsource : Addressable source) {fuel : Nat}
    (hstep : TransferStep env request fuel source target session after) :
    Booked source target session after := by
  cases hstep with
  | givenUp hquiet hclean => exact .of_quiet hquiet
  | copied node begun hfind htarget hskip hbegun hcopy =>
    have hfirst : Booked source target session begun := by
      refine ⟨fun walk hwalk ↦ .inl (hbegun.walks ▸ hwalk), fun pair hpair ↦ ?_⟩
      refine (hbegun.copies pair hpair).imp_right fun hnew ↦ ⟨[], ?_, hnew⟩
      rwa [append_nil]
    exact hfirst.trans (copyAndDelete_booked hsource htarget hcopy)

def Contains (path other : Bytes) : Prop := other = path ∨ path ++ [slash] <+: other

instance (path other : Bytes) : Decidable (Contains path other) := inferInstanceAs (Decidable (_ ∨ _))

theorem contains_buildPath (hsource : ∀ name ∈ source, isValidName name)
    (htarget : ∀ name ∈ target, isValidName name) (hroot : source ≠ []) :
    Contains (buildPath source) (buildPath target) ↔ source <+: target := by
  rw [Contains, buildPath_prefix_iff hsource htarget hroot]
  constructor
  · rintro (hsame | ⟨hbelow, -⟩)
    · have hequal : target = source := buildPath_injective htarget hsource hsame
      exact hequal ▸ prefix_rfl
    · exact hbelow
  · intro hbelow
    by_cases hsame : source = target
    · exact .inl (by rw [hsame])
    · exact .inr ⟨hbelow, hsame⟩

/-- The same place below two directories: the one contains the other only if the directory does. -/
theorem prefix_of_append_prefix {dir dstDir : List Bytes} {name : Bytes}
    (hbelow : dir ++ [name] ++ rest <+: dstDir ++ [name] ++ rest) :
    dir = dstDir ∨ dir ++ [name] <+: dstDir := by
  have hlength := hbelow.length_le
  simp only [length_append, length_singleton] at hlength
  have hentry : dir ++ [name] <+: dstDir ++ [name] ++ rest := (prefix_append _ _).trans hbelow
  by_cases hshort : dir.length < dstDir.length
  · right
    refine prefix_of_prefix_length_le hentry ?_ (by simpa using Nat.succ_le_of_lt hshort)
    rw [append_assoc]
    exact prefix_append _ _
  · left
    have hdir : dir <+: dstDir ++ [name] ++ rest := (prefix_append _ _).trans hentry
    have hdst : dstDir <+: dstDir ++ [name] ++ rest := by
      rw [append_assoc]
      exact prefix_append _ _
    exact (prefix_of_prefix_length_le hdir hdst (by omega)).eq_of_length (by omega)

theorem not_contains_of_below {dir dstDir : List Bytes} {name : Bytes} {pair : DirPair}
    (hsource : Addressable (dir ++ [name])) (hdst : dstDir ≠ dir) (houtside : ¬dir ++ [name] <+: dstDir)
    (hbelow : Below (dir ++ [name]) (dstDir ++ [name]) pair) : ¬Contains pair.src pair.dst := by
  obtain ⟨rest, htarget, rfl⟩ := hbelow
  rw [pairAt, contains_buildPath (validNames_append hsource htarget) htarget.names (by simp)]
  intro hbelow
  rcases prefix_of_append_prefix hbelow with hsame | hinside
  · exact hdst hsame.symm
  · exact houtside hinside

theorem renameEntry_books (src entryTarget : Bytes) (entry : FileEntry) (session : Session) :
    (renameEntry env request src entryTarget entry session).walks = session.walks ∧
      (renameEntry env request src entryTarget entry session).copies = session.copies := by
  unfold renameEntry
  split
  · exact ⟨rfl, rfl⟩
  · split
    · exact ⟨rfl, rfl⟩
    · exact ⟨rfl, rfl⟩

theorem renamePath_books (dstDir raw : Bytes) (session : Session) :
    (renamePath env request dstDir raw session).walks = session.walks ∧
      (renamePath env request dstDir raw session).copies = session.copies := by
  unfold renamePath
  split
  · exact ⟨rfl, rfl⟩
  · split
    · exact ⟨rfl, rfl⟩
    · split
      · exact renameEntry_books _ _ _ _
      · dsimp only
        split
        · exact ⟨rfl, rfl⟩
        · split
          · exact ⟨rfl, rfl⟩
          · split
            · exact ⟨rfl, rfl⟩
            · exact renameEntry_books _ _ _ _

theorem runInstant_books (env : Environment) (request : TransferRequest) (dstDir : Bytes)
    (paths : List Bytes) (session : Session) :
    (runInstant env request dstDir paths session).walks = session.walks ∧
      (runInstant env request dstDir paths session).copies = session.copies := by
  induction paths generalizing session with
  | nil => exact ⟨rfl, rfl⟩
  | cons raw paths ih =>
    rw [runInstant]
    rcases cancelRequested_cases env session with hstop | hgo
    · rw [hstop, if_pos rfl]
      exact ⟨rfl, rfl⟩
    · rw [hgo, if_neg Bool.false_ne_true]
      obtain ⟨hwalks, hcopies⟩ := renamePath_books dstDir raw session.tick
      obtain ⟨hrest, hothers⟩ := ih (renamePath env request dstDir raw session.tick)
      exact ⟨hrest.trans hwalks, hothers.trans hcopies⟩

/-- No directory is visited twice by a walk, and nothing is copied into itself. -/
def Separate (session : Session) : Prop :=
  (∀ walk ∈ session.walks, walk.Nodup) ∧ ∀ pair ∈ session.copies, ¬Contains pair.src pair.dst

theorem Separate.of_books {session session' : Session} (hseparate : Separate session)
    (hwalks : session'.walks = session.walks) (hcopies : session'.copies = session.copies) :
    Separate session' :=
  ⟨fun walk hwalk ↦ hseparate.1 walk (hwalks ▸ hwalk), fun pair hpair ↦ hseparate.2 pair (hcopies ▸ hpair)⟩

variable {dstDir : List Bytes} {volumes : Bytes → Tree} {fuel : Nat}

theorem transferPaths_separate (hdst : Accepted request volumes dstDir)
    (hsame : request.srcVolume = request.dstVolume)
    (houtside : ∀ raw ∈ request.paths, normalize raw ≠ some (buildPath dstDir))
    (hafter : transferPaths env request fuel (buildPath dstDir) session = some after)
    (hseparate : Separate session) : Separate after := by
  refine Worklist.foldlM_invariant Separate (fun before raw next hbefore hraw hnext ↦ ?_) hafter hseparate
  obtain ⟨dir, name, hsel⟩ := hdst.paths raw hraw
  obtain ⟨hparent, hinside⟩ := hsel.apart hsame
  have hnot : ¬dir ++ [name] <+: dstDir := by
    intro hbelow
    exact houtside raw hraw (by rw [hsel.normal, hinside hbelow])
  split_ifs at hnext
  · cases hnext
    exact hbefore
  · have hbooked := (transferPath_step hdst.addressable hsel hnext).booked hsel.addressable
    refine ⟨fun walk hwalk ↦ ?_, fun pair hpair ↦ ?_⟩
    · exact (hbooked.walks walk hwalk).elim (hbefore.1 walk) id
    · rcases hbooked.copies pair hpair with hold | hbelow
      · exact hbefore.2 pair hold
      · exact not_contains_of_below hsel.addressable hparent hnot hbelow

theorem run_separate (hsame : request.srcVolume = request.dstVolume)
    (houtside : ∀ raw ∈ request.paths, normalize raw ≠ normalize request.dstPath)
    (hrun : run env request fuel volumes = some session) : Separate session := by
  have hstart : Separate (start request volumes) := ⟨by simp [start], by simp [start]⟩
  rcases run_cases hrun with ⟨hquiet, -⟩ | ⟨dstDir, begun, hdst, hquiet, -, haccepted⟩
  · exact hstart.of_books hquiet.walks hquiet.copies
  · have hbegun : Separate begun := hstart.of_books hquiet.walks hquiet.copies
    rw [hdst.normal] at houtside
    unfold runAccepted at haccepted
    split_ifs at haccepted
    · cases haccepted
      obtain ⟨hwalks, hcopies⟩ := runInstant_books env request (buildPath dstDir) request.paths
        (begun.directed (buildPath dstDir)).instantly
      exact hbegun.of_books hwalks hcopies
    · obtain ⟨last, hlast, rfl⟩ := Option.map_eq_some_iff.mp haccepted
      obtain ⟨measured, hmeasured, hrest⟩ := measureAndCopy_cases hlast
      have hseparate : Separate measured :=
        hbegun.of_books (measurePaths_quiet hmeasured).walks (measurePaths_quiet hmeasured).copies
      rcases hrest with ⟨hquiet, -⟩ | hcopy
      · exact hseparate.of_books hquiet.walks hquiet.copies
      · have hcopied := transferPaths_separate hdst hsame houtside hcopy hseparate
        exact hcopied

/-- What a transfer on one volume should come to: the destination is outside every selected entry, the
run ends, its walks meet no directory twice, and nothing is copied into itself. -/
structure NoSelfTransfer (env : Environment) (request : TransferRequest)
    (volumes : Bytes → Volume) : Prop where
  outside : ∀ raw ∈ request.paths, ∀ path dstDir, normalize raw = some path →
    normalize request.dstPath = some dstDir → ¬Contains path dstDir
  ends : Worklist.Settles fun fuel ↦
    run env request fuel fun volume ↦ (volumes volume).toFileTree
  separate : ∀ fuel session,
    run env request fuel (fun volume ↦ (volumes volume).toFileTree) = some session → Separate session

theorem outside_of_accepted (hdst : Accepted request volumes dstDir)
    (hsame : request.srcVolume = request.dstVolume)
    (houtside : ∀ raw ∈ request.paths, normalize raw ≠ normalize request.dstPath)
    {raw path dst : Bytes} (hraw : raw ∈ request.paths) (hpath : normalize raw = some path)
    (hdstPath : normalize request.dstPath = some dst) : ¬Contains path dst := by
  obtain ⟨dir, name, hsel⟩ := hdst.paths raw hraw
  obtain rfl := Option.some.inj (hpath.symm.trans hsel.normal)
  obtain rfl := Option.some.inj (hdstPath.symm.trans hdst.normal)
  rw [contains_buildPath hsel.addressable.names hdst.addressable.names (by simp)]
  intro hbelow
  refine houtside raw hraw ?_
  rw [hsel.normal, hdst.normal, (hsel.apart hsame).2 hbelow]

/-- An accepted transfer on one volume is no transfer into itself exactly when the destination is none
of the selected entries. -/
theorem noSelfTransfer_iff {volumes : Bytes → Volume}
    (haccepted : (validate env request
      (start request fun volume ↦ (volumes volume).toFileTree)).1 = none)
    (hsame : request.srcVolume = request.dstVolume) :
    NoSelfTransfer env request volumes ↔
      ∀ raw ∈ request.paths, normalize raw ≠ normalize request.dstPath := by
  obtain ⟨dstDir, hdst⟩ := validate_accepted haccepted
  constructor
  · intro hholds raw hraw hequal
    obtain ⟨dir, name, hsel⟩ := hdst.paths raw hraw
    exact hholds.outside raw hraw _ _ hsel.normal (hequal ▸ hsel.normal) (.inl rfl)
  · intro houtside
    refine ⟨?_, run_settles env request volumes, fun fuel session hrun ↦ ?_⟩
    · intro raw hraw path dst hpath hdstPath
      exact outside_of_accepted hdst hsame houtside hraw hpath hdstPath
    · exact run_separate hsame houtside hrun

def twoDirectories : Volume :=
  .ofEntries [([ascii "a"], .dir), ([ascii "b"], .dir)] (by decide) (by decide) (by decide) (by decide)

def copyOnOneVolume (dstPath : Bytes) : TransferRequest where
  srcVolume := ascii "data"
  paths := [ascii "/a"]
  dstVolume := ascii "data"
  dstPath

theorem noSelfTransfer_two :
    NoSelfTransfer { free := fun _ ↦ 1000000 } (copyOnOneVolume (ascii "/b")) fun _ ↦ twoDirectories :=
  (noSelfTransfer_iff (by decide) rfl).mpr (by decide)

/-- A directory can be copied into itself. -/
theorem noSelfTransfer_fails : (validate { free := fun _ ↦ 1000000 } (copyOnOneVolume (ascii "/a"))
        (start (copyOnOneVolume (ascii "/a")) fun _ ↦ twoDirectories.toFileTree)).1 = none ∧
      (∃ session ∈ run { free := fun _ ↦ 1000000 } (copyOnOneVolume (ascii "/a")) 20
          fun _ ↦ twoDirectories.toFileTree, ⟨ascii "/a", ascii "/a/a"⟩ ∈ session.copies) ∧
        ¬NoSelfTransfer { free := fun _ ↦ 1000000 } (copyOnOneVolume (ascii "/a"))
          fun _ ↦ twoDirectories := by
  refine ⟨by decide, by decide +kernel, fun hholds ↦ ?_⟩
  have hpath : normalize (ascii "/a") = some (ascii "/a") := by decide
  exact hholds.outside (ascii "/a") (by decide) _ _ hpath hpath (.inl rfl)

end DhcpServer.Files.TransferEngine
