import DhcpServer.Files.TransferRun

/-!
# What a copy counts

The measuring walk and the copying walk are two walks over the same tree. Where nothing fails, they
find the same directories in the same order and count the same bytes, files and directories, so that
what has been copied at the end is what was measured before.
-/

namespace DhcpServer.Files.TransferEngine

open Library Storage.PathUtil List Option FileManager

variable {env : Environment} {request : TransferRequest} {tree : Tree}
  {source target rest : List Bytes} {session after : Session} {entries more : List FileEntry}
  {entry : FileEntry} {visit visit' later : Visit}

instance : Zero Measure := ⟨{}⟩

theorem Measure.zero_add (measure : Measure) : 0 + measure = measure := by
  rw [Measure.mk.injEq]
  exact ⟨Nat.zero_add _, Nat.zero_add _, Nat.zero_add _⟩

theorem sizes_append (entries more : List FileEntry) :
    sizes (entries ++ more) = sizes entries + sizes more := by
  induction entries with
  | nil => simp [sizes]
  | cons entry entries ih =>
    rw [cons_append, sizes, ih, sizes, Nat.add_assoc]

theorem tally_append (entries more : List FileEntry) :
    tally (entries ++ more) = tally entries + tally more := by
  change Measure.mk _ _ _ = Measure.mk _ _ _
  rw [Measure.mk.injEq]
  simp only [filter_append, sizes_append, length_append]
  exact ⟨rfl, rfl, rfl⟩

theorem tally_dir (hdir : entry.isDir) : tally [entry] = ⟨0, 0, 1⟩ := by
  simp [tally, sizes, hdir]

theorem tally_file (hdir : entry.isDir = false) : tally [entry] = ⟨entry.size, 1, 0⟩ := by
  simp [tally, sizes, hdir]

theorem Counted.refl (session : Session) : Counted 0 session session := ⟨rfl, rfl, id⟩

def dirPairs (source target rest : List Bytes) (entries : List FileEntry) : List DirPair :=
  (entries.filter fun entry ↦ entry.isDir).map fun entry ↦ pairAt source target (rest ++ [entry.name])

theorem dirPairs_append (source target rest : List Bytes) (entries more : List FileEntry) :
    dirPairs source target rest (entries ++ more) =
      dirPairs source target rest entries ++ dirPairs source target rest more := by
  rw [dirPairs, filter_append, map_append, dirPairs, dirPairs]

structure VisitCount (request : TransferRequest) (source target rest : List Bytes)
    (entries : List FileEntry) (visit visit' : Visit) : Prop where
  same : visit'.session.source request = visit.session.source request
  counted : Counted (tally entries) visit.session visit'.session
  ok : visit'.ok = visit.ok
  found : visit'.found = visit.found ++ dirPairs source target rest entries
  addressable : ∀ entry ∈ entries, Addressable (target ++ (rest ++ [entry.name]))

theorem VisitCount.trans (hfirst : VisitCount request source target rest entries visit visit')
    (hsecond : VisitCount request source target rest more visit' later) :
    VisitCount request source target rest (entries ++ more) visit later where
  same := hsecond.same.trans hfirst.same
  counted := by
    rw [tally_append]
    exact hfirst.counted.trans hsecond.counted
  ok := hsecond.ok.trans hfirst.ok
  found := by rw [hsecond.found, hfirst.found, append_assoc, dirPairs_append]
  addressable := forall_mem_append.mpr ⟨hfirst.addressable, hsecond.addressable⟩

theorem EntryStep.count (hvolumes : request.srcVolume ≠ request.dstVolume)
    (hsource : visit.session.source request = tree)
    (hentry : entry ∈ visible tree (source ++ rest))
    (hstep : EntryStep env request source target rest entry visit visit')
    (hclean : visit'.session.Clean) : VisitCount request source target rest [entry] visit visit' := by
  cases hstep with
  | failed after hvolumes hwalks hcopies hnot => exact absurd hclean hnot
  | entered after hdir haddr hwrote hwalks hcopies hcounted hthere =>
    refine ⟨hwrote.source_eq hvolumes, ?_, rfl, ?_, forall_mem_singleton.mpr haddr⟩
    · rw [tally_dir hdir]
      exact hcounted
    · rw [dirPairs, filter_cons_of_pos hdir]
      rfl
  | file answer hdir haddr houtcome =>
    cases hcomplete : answer.1 with
    | false => exact absurd hclean (houtcome.incomplete hcomplete)
    | true =>
      obtain ⟨content, hfind, -, hcounted⟩ := houtcome.complete hcomplete
      obtain ⟨-, node, hnode, hsame⟩ := mem_visible.mp hentry
      rw [append_assoc, ← hsource, hfind] at hnode
      cases hnode
      have hsize : entry.size = content.length := by
        rw [hsame]
        rfl
      refine ⟨houtcome.wrote.source_eq hvolumes, ?_, ?_, ?_, forall_mem_singleton.mpr haddr⟩
      · rw [tally_file hdir, hsize]
        exact hcounted
      · exact Bool.and_true visit.ok
      · rw [dirPairs, filter_cons_of_neg (by simp [hdir])]
        exact (append_nil visit.found).symm

theorem EntryStep.clean (hstep : EntryStep env request source target rest entry visit visit')
    (hclean : visit'.session.Clean) : visit.session.Clean := by
  cases hstep with
  | failed after hsame hwalks hcopies hnot => exact absurd hclean hnot
  | entered after hdir haddr hwrote hwalks hcopies hcounted hthere => exact hcounted.clean hclean
  | file answer hdir haddr houtcome =>
    cases hcomplete : answer.1 with
    | false => exact absurd hclean (houtcome.incomplete hcomplete)
    | true =>
      obtain ⟨content, -, -, hcounted⟩ := houtcome.complete hcomplete
      exact hcounted.clean hclean

theorem visitEntries_clean (env : Environment) (hsource : ∀ name ∈ source ++ rest, EntryName name)
    (htarget : Addressable (target ++ rest))
    (hclean : (entries.foldl (visitEntry env request (pairAt source target rest))
      visit).session.Clean) : visit.session.Clean := by
  induction entries generalizing visit with
  | nil => exact hclean
  | cons entry entries ih =>
    exact (visitEntry_step env request hsource htarget visit entry).clean (ih hclean)

theorem visitEntries_count (env : Environment) (hvolumes : request.srcVolume ≠ request.dstVolume)
    (hsource : ∀ name ∈ source ++ rest, EntryName name) (htarget : Addressable (target ++ rest))
    (hentries : ∀ entry ∈ entries, entry ∈ visible tree (source ++ rest)) (visit : Visit)
    (htree : visit.session.source request = tree)
    (hclean : (entries.foldl (visitEntry env request (pairAt source target rest))
      visit).session.Clean) :
    VisitCount request source target rest entries visit
      (entries.foldl (visitEntry env request (pairAt source target rest)) visit) := by
  induction entries generalizing visit with
  | nil =>
    have hnone : visit.found = visit.found ++ dirPairs source target rest [] := by simp [dirPairs]
    exact ⟨rfl, Counted.refl visit.session, rfl, hnone, by simp⟩
  | cons entry entries ih =>
    obtain ⟨hentry, hentries⟩ := forall_mem_cons.mp hentries
    have hnext : (visitEntry env request (pairAt source target rest) visit entry).session.Clean :=
      visitEntries_clean env hsource htarget hclean
    have hstep := (visitEntry_step env request hsource htarget visit entry).count hvolumes htree
      hentry hnext
    exact hstep.trans (ih hentries _ (hstep.same.trans htree) hclean)

/-! ## The two walks -/

/-- A directory of the copying walk in which nothing has failed. -/
structure DirCount (request : TransferRequest) (source target rest : List Bytes)
    (progress progress' : Bool × Session) (found : List DirPair) : Prop where
  same : progress'.2.source request = progress.2.source request
  ok : progress'.1 = progress.1
  counted : Counted (tally (visible (progress.2.source request) (source ++ rest)))
    progress.2 progress'.2
  found : found = dirPairs source target rest
    (visible (progress.2.source request) (source ++ rest))
  addressable : ∀ entry ∈ visible (progress.2.source request) (source ++ rest),
    Addressable (target ++ (rest ++ [entry.name]))

theorem copyDir_count (hvolumes : request.srcVolume ≠ request.dstVolume)
    (hsource : ∀ name ∈ source, EntryName name) (htarget : Addressable (target ++ rest))
    {progress progress' : Bool × Session} {found : List DirPair}
    (hstep : copyDir env request progress (pairAt source target rest) = .inr (progress', found))
    (hclean : progress'.2.Clean) : DirCount request source target rest progress progress' found := by
  have hnames := entryNames_append hsource htarget
  unfold copyDir at hstep
  dsimp only at hstep
  split_ifs at hstep
  split at hstep
  case h_1 =>
    cases hstep
    exact absurd hclean (not_clean_fail _ _ _ _)
  case h_2 entries hscan =>
    obtain ⟨names, habs, -, rfl⟩ := scan_eq_ok hscan
    obtain ⟨rfl, -⟩ := absolute_buildPath_eq hnames habs
    cases hstep
    have hwalked : Counted 0 progress.2 (progress.2.tick.scanned (buildPath (source ++ rest))) :=
      ⟨rfl, rfl, id⟩
    have hcount := visitEntries_count env hvolumes hnames htarget (fun _ hentry ↦ hentry)
      { session := progress.2.tick.scanned (buildPath (source ++ rest)) } rfl hclean
    have hcounted := hwalked.trans hcount.counted
    rw [Measure.zero_add] at hcounted
    exact ⟨hcount.same, (congrArg (progress.1 && ·) hcount.ok).trans (Bool.and_true _), hcounted,
      hcount.found, hcount.addressable⟩

/-- A directory of the measuring walk and its pair in the copying walk. -/
def SameDir (source target : List Bytes) (dir : Bytes) (pair : DirPair) : Prop :=
  ∃ rest, Addressable (target ++ rest) ∧ dir = buildPath (source ++ rest) ∧ pair = pairAt source target rest

theorem found_sameDir (hsource : ∀ name ∈ source, EntryName name) {dir : Bytes} {pair : DirPair}
    {progress progress' : Bool × Session} {found : List DirPair} (hsame : SameDir source target dir pair)
    (hstep : copyDir env request progress pair = .inr (progress', found)) :
    ∀ next ∈ found, ∃ dir, SameDir source target dir next := by
  obtain ⟨rest, htarget, -, rfl⟩ := hsame
  obtain ⟨names, -, hchildren, rfl⟩ := (copyDir_shape hsource htarget hstep).found
  intro next hnext
  obtain ⟨name, hname, rfl⟩ := List.mem_map.mp hnext
  exact ⟨_, _, hchildren name hname, rfl, rfl⟩

variable {fuel : Nat}

theorem copyWalk_clean (hvolumes : request.srcVolume ≠ request.dstVolume)
    (hsource : ∀ name ∈ source, EntryName name) {queue : List DirPair}
    {progress answer : Bool × Session} (hqueue : ∀ pair ∈ queue, ∃ dir, SameDir source target dir pair)
    (hanswer : worklist (copyDir env request) id fuel queue progress = some answer)
    (hclean : answer.2.Clean) : progress.2.Clean := by
  by_contra hnot
  refine Worklist.invariant
    (fun queue progress ↦ (∀ pair ∈ queue, ∃ dir, SameDir source target dir pair) ∧ ¬progress.2.Clean)
    (fun answer ↦ ¬answer.2.Clean) ?_ ?_ (fun _ hinv ↦ hinv.2) hanswer ⟨hqueue, hnot⟩ hclean
  · rintro pair queue progress progress' found ⟨hqueue, hnot⟩ hstep
    obtain ⟨⟨dir, hsame⟩, hlater⟩ := forall_mem_cons.mp hqueue
    refine ⟨forall_mem_append.mpr ⟨hlater, found_sameDir hsource hsame hstep⟩, fun hclean ↦ hnot ?_⟩
    · obtain ⟨rest, htarget, -, rfl⟩ := hsame
      exact (copyDir_count hvolumes hsource htarget hstep hclean).counted.clean hclean
  · rintro pair queue progress answer ⟨-, hnot⟩ hstep
    rw [(copyDir_stop hstep).1]
    exact hnot

theorem copyDir_stop_not_clean {progress answer : Bool × Session} {pair : DirPair}
    (hstep : copyDir env request progress pair = .inl answer) : ¬answer.2.Clean := by
  obtain ⟨rfl, hcancelled⟩ := copyDir_stop hstep
  rintro ⟨-, -, hnot⟩
  rw [hcancelled] at hnot
  cases hnot

theorem measureDir_stop {measuring : Measure × Session} {dir : Bytes} {measure : Measure}
    {measured : Except Failure Measure × Session}
    (hstep : measureDir env request measuring dir = .inl measured) : measured.1 ≠ .ok measure := by
  unfold measureDir at hstep
  dsimp only at hstep
  split at hstep
  case h_1 =>
    obtain rfl := Sum.inl.inj hstep
    rintro ⟨⟩
  case h_2 => cases hstep

theorem sameDir_top (htarget : Addressable target) :
    SameDir source target (buildPath source) ⟨buildPath source, buildPath target⟩ := by
  refine ⟨[], ?_, ?_, ?_⟩
  · rwa [append_nil]
  · rw [append_nil]
  · rw [pairAt, append_nil, append_nil]

theorem copyEntry_clean (hvolumes : request.srcVolume ≠ request.dstVolume)
    (hsource : ∀ name ∈ source, EntryName name) (htarget : Addressable target) {isDir : Bool}
    {answer : Bool × Session}
    (hanswer : copyEntry env request fuel (buildPath source) (buildPath target) isDir session =
      some answer) (hclean : answer.2.Clean) : session.Clean := by
  unfold copyEntry at hanswer
  split_ifs at hanswer
  · have hqueue : ∀ pair ∈ [(⟨buildPath source, buildPath target⟩ : DirPair)],
        ∃ dir, SameDir source target dir pair :=
      forall_mem_singleton.mpr ⟨_, sameDir_top htarget⟩
    exact copyWalk_clean hvolumes hsource hqueue hanswer hclean
  · cases hanswer
    have houtcome := copyFile_outcome env request hsource htarget session
    cases hcomplete : (copyFile env request (buildPath source) (buildPath target)
      (session.current (buildPath source))).1 with
    | false => exact absurd hclean (houtcome.incomplete hcomplete)
    | true =>
      obtain ⟨content, -, -, hcounted⟩ := houtcome.complete hcomplete
      exact hcounted.clean hclean

structure InStep (request : TransferRequest) (tree : Tree) (session : Session)
    (measuring : Measure × Session) (copying : Bool × Session) : Prop where
  sees : measuring.2.source request = tree
  sees' : copying.2.source request = tree
  ok : copying.1 = true
  counted : ∃ more, measuring.1 = ⟨0, 0, 1⟩ + more ∧ Counted more session copying.2

theorem InStep.step (hvolumes : request.srcVolume ≠ request.dstVolume)
    (hsource : ∀ name ∈ source, EntryName name) {dir : Bytes} {pair : DirPair}
    {measuring measuring' : Measure × Session} {copying copying' : Bool × Session} {found : List Bytes}
    {found' : List DirPair} (hsame : SameDir source target dir pair)
    (hinstep : InStep request tree session measuring copying)
    (hmeasure : measureDir env request measuring dir = .inr (measuring', found))
    (hcopy : copyDir env request copying pair = .inr (copying', found'))
    (hclean : copying'.2.Clean) :
    InStep request tree session measuring' copying' ∧
      List.Forall₂ (SameDir source target) found found' := by
  obtain ⟨rest, htarget, rfl, rfl⟩ := hsame
  have hnames := entryNames_append hsource htarget
  have hcount := copyDir_count hvolumes hsource htarget hcopy hclean
  obtain ⟨names, habs, rfl, rfl⟩ := measureDir_eq hmeasure
  obtain ⟨rfl, -⟩ := absolute_buildPath_eq hnames habs
  obtain ⟨more, hmore, hcounted⟩ := hinstep.counted
  have hfound := hcount.found
  have hadded := hcount.counted
  have haddr := hcount.addressable
  rw [hinstep.sees'] at hfound hadded haddr
  rw [hinstep.sees]
  refine ⟨⟨hinstep.sees, hcount.same.trans hinstep.sees', hcount.ok.trans hinstep.ok, ?_⟩, ?_⟩
  · refine ⟨more + tally (visible tree (source ++ rest)), ?_, hcounted.trans hadded⟩
    rw [← Measure.add_assoc, ← hmore]
  · rw [hfound, dirPairs, forall₂_map_left_iff, forall₂_map_right_iff, forall₂_same]
    intro entry hentry
    refine ⟨rest ++ [entry.name], haddr entry (mem_of_mem_filter hentry), ?_, rfl⟩
    rw [joinRel_buildPath hnames, append_assoc]

theorem InStep.finish {measuring : Measure × Session} {copying : Bool × Session}
    (hinstep : InStep request tree session measuring copying) :
    ∃ more, (Except.ok measuring.1 : Except Failure Measure) = .ok (⟨0, 0, 1⟩ + more) ∧ copying.1 ∧
      Counted more session copying.2 := by
  obtain ⟨more, hmore, hcounted⟩ := hinstep.counted
  exact ⟨more, congrArg Except.ok hmore, hinstep.ok, hcounted⟩

theorem copyEntry_count (hvolumes : request.srcVolume ≠ request.dstVolume) {node : Node Bytes}
    (hsource : Addressable source) (htarget : Addressable target)
    (hnode : tree.find source = some node) {fuel fuel' : Nat} {earlier measured : Session}
    {measure : Measure} {answer : Bool × Session}
    (hearlier : earlier.source request = tree) (htree : session.source request = tree)
    (hmeasure : measureEntry env request fuel (buildPath source) earlier =
      some (.ok measure, measured))
    (hcopy : copyEntry env request fuel' (buildPath source) (buildPath target) (node = .dir)
      session = some answer) (hclean : answer.2.Clean) :
    answer.1 ∧ ∃ more, measure = (if node = .dir then ⟨0, 0, 1⟩ else 0) + more ∧
      Counted more session answer.2 := by
  have hnames := hsource.entryNames
  unfold measureEntry at hmeasure
  unfold copyEntry at hcopy
  split at hmeasure
  case h_1 => cases (Prod.mk.inj (Option.some.inj hmeasure)).1
  case h_2 entry hstat =>
    obtain ⟨names, same, habs, hsame, rfl⟩ := stat_eq_ok hstat
    rw [absolute_buildPath hsource] at habs
    cases habs
    rw [hearlier, hnode] at hsame
    cases hsame
    cases node with
    | file content =>
      rw [if_neg (by simp [entryOf])] at hmeasure
      rw [if_neg (by simp)] at hcopy
      cases hcopy
      have houtcome := copyFile_outcome env request hnames htarget session
      cases hcomplete : (copyFile env request (buildPath source) (buildPath target)
        (session.current (buildPath source))).1 with
      | false => exact absurd hclean (houtcome.incomplete hcomplete)
      | true =>
        obtain ⟨content', hfind, -, hcounted⟩ := houtcome.complete hcomplete
        rw [htree, hnode] at hfind
        obtain rfl := Node.file.inj (Option.some.inj hfind)
        obtain rfl := Except.ok.inj (Prod.mk.inj (Option.some.inj hmeasure)).1
        refine ⟨rfl, _, ?_, hcounted⟩
        rw [if_neg (by simp), Measure.zero_add]
        rfl
    | dir =>
      rw [if_pos (by rfl)] at hmeasure
      rw [if_pos (by rfl)] at hcopy
      have hstart : InStep request tree session ({ dirs := 1 }, earlier.tick)
          (true, { session with walks := [] :: session.walks }) :=
        ⟨hearlier, htree, rfl, 0, rfl, rfl, rfl, id⟩
      have hcounted := Worklist.lockstep (SameDir source target) (InStep request tree session)
        (fun copying ↦ copying.2.Clean) (fun measured ↦ measured.1 = .ok measure)
        (fun answer ↦ answer.2.Clean)
        (fun measured answer ↦ ∃ more, measured.1 = .ok (⟨0, 0, 1⟩ + more) ∧ answer.1 = true ∧
          Counted more session answer.2)
        (fun _ _ _ _ hqueue hanswer hend ↦ copyWalk_clean hvolumes hnames hqueue hanswer hend)
        (fun _ _ _ _ _ _ _ _ hsame hinstep hmeasure hcopy hend ↦
          hinstep.step hvolumes hnames hsame hmeasure hcopy hend)
        (fun _ _ _ _ _ hsame hcopy ↦ found_sameDir hnames hsame hcopy)
        (fun _ _ _ hstop ↦ measureDir_stop hstop) (fun _ _ _ hstop ↦ copyDir_stop_not_clean hstop)
        (fun _ _ hinstep ↦ hinstep.finish) (.cons (sameDir_top htarget) .nil) hstart hmeasure hcopy rfl hclean
      obtain ⟨more, hmore, hok, hcounted⟩ := hcounted
      exact ⟨hok, more, Except.ok.inj hmore, hcounted⟩

theorem measureEntry_counted {top : Bytes} {answer : Except Failure Measure × Session}
    (hanswer : measureEntry env request fuel top session = some answer) :
    Counted 0 session answer.2 := by
  unfold measureEntry at hanswer
  split at hanswer
  case h_1 =>
    cases hanswer
    exact ⟨rfl, rfl, id⟩
  case h_2 =>
    split_ifs at hanswer
    · refine Worklist.invariant (fun _ progress ↦ Counted 0 session progress.2)
        (fun answer ↦ Counted 0 session answer.2) ?_ ?_ (fun _ hcounted ↦ hcounted) hanswer
        ⟨rfl, rfl, id⟩
      · intro dir queue progress progress' found hcounted hstep
        obtain ⟨-, -, rfl, -⟩ := measureDir_eq hstep
        exact ⟨hcounted.done, hcounted.total, hcounted.clean⟩
      · intro dir queue progress answer hcounted hstep
        unfold measureDir at hstep
        dsimp only at hstep
        split at hstep
        case h_1 =>
          obtain rfl := Sum.inl.inj hstep
          exact ⟨hcounted.done, hcounted.total, hcounted.clean⟩
        case h_2 => cases hstep
    · cases hanswer
      exact ⟨rfl, rfl, id⟩

/-- What is known of the measure of a selected path: it is that of the entry in the tree, or the entry
will be skipped. -/
def MeasuredAs (env : Environment) (request : TransferRequest) (fuel : Nat) (tree destination : Tree)
    (dstDir : List Bytes) (raw : Bytes) (measure : Measure) : Prop :=
  ∀ dir name, Selected request tree dstDir raw dir name →
    (request.conflict = .skip ∧ destination.find (dstDir ++ [name]) ≠ none) ∨
      ∃ earlier measured, earlier.source request = tree ∧
        measureEntry env request fuel (buildPath (dir ++ [name])) earlier =
          some (.ok measure, measured)

theorem skipsMeasure_eq_true {dstDir dir : List Bytes} {name : Bytes} (haddr : Addressable dstDir)
    (hentry : Addressable (dir ++ [name]))
    (hskips : skipsMeasure env request (buildPath dstDir) (buildPath (dir ++ [name])) session) :
    request.conflict = .skip ∧ (session.destination request).find (dstDir ++ [name]) ≠ none := by
  have hname := validName_of_isValidName (hentry.names name (by simp))
  unfold skipsMeasure at hskips
  rw [basename_buildPath hname, normalizeChild_buildPath haddr] at hskips
  split at hskips
  case h_1 => cases hskips
  case h_2 path htarget =>
    obtain ⟨haddr', hpath⟩ := ite_none_right_eq_some.mp htarget
    cases hpath
    obtain ⟨hconflict, htaken⟩ := Bool.and_eq_true _ _ ▸ hskips
    refine ⟨of_decide_eq_true hconflict, ?_⟩
    cases hstat : stat (session.fate env) (session.destination request)
        (buildPath (dstDir ++ [name])) with
    | error failure =>
      rw [hstat] at htaken
      cases htaken
    | ok entry =>
      obtain ⟨names, node, habs, hfind, -⟩ := stat_eq_ok hstat
      rw [absolute_buildPath haddr'] at habs
      rw [Option.some.inj habs, hfind]
      rintro ⟨⟩

theorem measurePath_total {dstDir : List Bytes} {raw : Bytes}
    (haddr : Addressable dstDir)
    (hsel : ∃ dir name, Selected request (session.source request) dstDir raw dir name)
    (hafter : measurePath env request fuel (buildPath dstDir) raw session = some after)
    (hclean : after.Clean) :
    session.Clean ∧ after.done = session.done ∧ ∃ measure,
      after.total = session.total + measure ∧
        MeasuredAs env request fuel (session.source request) (session.destination request) dstDir
          raw measure := by
  obtain ⟨dir, name, hsel⟩ := hsel
  have hsame {dir' : List Bytes} {name' : Bytes}
      (hother : Selected request (session.source request) dstDir raw dir' name') :
      dir' = dir ∧ name' = name := split_unique hother.split hsel.split
  unfold measurePath at hafter
  rw [hsel.normal] at hafter
  dsimp only at hafter
  split_ifs at hafter with hskips
  · cases hafter
    refine ⟨hclean, rfl, 0, rfl, fun dir' name' hother ↦ .inl ?_⟩
    obtain ⟨rfl, rfl⟩ := hsame hother
    exact skipsMeasure_eq_true haddr hsel.addressable hskips
  · obtain ⟨answer, hanswer, rfl⟩ := map_eq_some_iff.mp hafter
    have hcounted := measureEntry_counted hanswer
    split at hclean
    case h_1 => exact absurd hclean (not_clean_fail _ _ _ _)
    case h_2 measure hmeasure =>
      have hearlier : answer.2.Clean := hclean
      refine ⟨hcounted.clean hearlier, hcounted.done, measure, ?_, fun dir' name' hother ↦ .inr ?_⟩
      · exact congrArg (· + measure) hcounted.total
      · obtain ⟨rfl, rfl⟩ := hsame hother
        exact ⟨session.tick, answer.2, rfl, by rw [hanswer, ← hmeasure]⟩

theorem measurePaths_total {dstDir : List Bytes} {paths : List Bytes}
    (haddr : Addressable dstDir)
    (hsel : ∀ raw ∈ paths, ∃ dir name, Selected request (session.source request) dstDir raw dir name)
    (hafter : paths.foldlM
      (fun session raw ↦ measurePath env request fuel (buildPath dstDir) raw session) session =
        some after)
    (hclean : after.Clean) :
    session.Clean ∧ after.done = session.done ∧ ∃ measures : List Measure,
      after.total = session.total + measures.sum ∧
        List.Forall₂ (MeasuredAs env request fuel (session.source request)
          (session.destination request) dstDir) paths measures := by
  induction paths generalizing session with
  | nil =>
    cases hafter
    exact ⟨hclean, rfl, [], rfl, .nil⟩
  | cons raw paths ih =>
    obtain ⟨hraw, hpaths⟩ := forall_mem_cons.mp hsel
    rw [foldlM_cons] at hafter
    obtain ⟨next, hnext, hrest⟩ := bind_eq_some_iff.mp hafter
    have hvolumes := (measurePath_quiet hnext).volumes
    have hsource : next.source request = session.source request := by
      rw [Session.source, hvolumes, Session.source]
    have hdestination : next.destination request = session.destination request := by
      rw [Session.destination, hvolumes, Session.destination]
    rw [← hsource] at hpaths
    obtain ⟨hbetween, hdone, measures, htotal, hmeasures⟩ := ih hpaths hrest
    obtain ⟨hbefore, hdone', measure, htotal', hmeasure⟩ := measurePath_total haddr hraw hnext hbetween
    rw [hsource, hdestination] at hmeasures
    refine ⟨hbefore, hdone.trans hdone', measure :: measures, ?_, .cons hmeasure hmeasures⟩
    rw [htotal, htotal', sum_cons, Measure.add_assoc]

end DhcpServer.Files.TransferEngine
