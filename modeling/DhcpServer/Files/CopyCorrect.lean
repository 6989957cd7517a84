import DhcpServer.Files.CopyCount
import DhcpServer.Files.TransferCopy

/-!
# A copy is correct

A copy to another volume that ends without a failure, a skip or a cancellation has put every entry it
can see at the corresponding place, has left all other files of the destination and the whole source as
they were, and has copied what was measured.
-/

namespace DhcpServer.Files.TransferEngine

open Library Storage.PathUtil List Option

variable {env : Environment} {request : TransferRequest} {tree : Tree}
  {source target dstDir dir path : List Bytes} {name raw : Bytes} {session after : Session}
  {measure : Measure} {fuel : Nat}

/-! ## One selected entry -/

structure PathCopied (env : Environment) (request : TransferRequest) (tree : Tree)
    (source target : List Bytes) (measure : Measure) (session after : Session) : Prop where
  clean : session.Clean
  wrote : Wrote request (Reaches tree source target) (target <+: ·) session after
  placed : ∀ rest, Plain (target ++ rest) → Placed env request tree source target rest after
  counted : ∃ copied, Counted copied session after ∧ copied.bytes = measure.bytes ∧
    copied.files = measure.files ∧
      ((tree.find source = some .dir → (session.destination request).find target = none) → copied = measure)

theorem copied_eq_measure {node : Node Bytes} {destination : Tree} {made : Nat} {more : Measure}
    (hmade : made = if node = .dir ∧ destination.find target = none then 1 else 0)
    (hmeasure : measure = (if node = .dir then ⟨0, 0, 1⟩ else 0) + more) :
    (⟨0, 0, made⟩ + more : Measure).bytes = measure.bytes ∧
      (⟨0, 0, made⟩ + more : Measure).files = measure.files ∧
        ((node = .dir → destination.find target = none) → ⟨0, 0, made⟩ + more = measure) := by
  rw [hmeasure, hmade]
  by_cases hdir : node = .dir
  · rw [if_pos hdir]
    refine ⟨rfl, rfl, fun hfree ↦ ?_⟩
    rw [if_pos ⟨hdir, hfree hdir⟩]
  · rw [if_neg hdir, if_neg fun hboth ↦ hdir hboth.1]
    exact ⟨rfl, rfl, fun _ ↦ rfl⟩

theorem copyAndDelete_copy {isDir : Bool} (hcopy : request.op = .copy)
    (hafter : copyAndDelete env request fuel (buildPath source) (buildPath target) isDir session =
      some after) :
    ∃ answer, copyEntry env request fuel (buildPath source) (buildPath target) isDir session =
        some answer ∧ after.volumes = answer.2.volumes ∧ Counted 0 answer.2 after := by
  obtain ⟨answer, hanswer, hafter⟩ := map_eq_some_iff.mp hafter
  refine ⟨answer, hanswer, ?_⟩
  rw [← hafter]
  split_ifs with hstop hmove
  · exact ⟨rfl, rfl, rfl, id⟩
  · rw [hcopy] at hmove
    cases hmove.2
  · exact ⟨rfl, rfl, rfl, id⟩

theorem TransferStep.copies {measuring : Nat} {earlier measured : Session} (hcalm : env.Calm)
    (hcopy : request.op = .copy) (hvolumes : request.srcVolume ≠ request.dstVolume)
    (hsource : Addressable source) (htree : session.source request = tree)
    (hearlier : earlier.source request = tree)
    (hmeasure : measureEntry env request measuring (buildPath source) earlier =
      some (.ok measure, measured))
    (hstep : TransferStep env request fuel source target session after) (hclean : after.Clean) :
    PathCopied env request tree source target measure session after := by
  cases hstep with
  | givenUp hquiet hnot => exact absurd hclean hnot
  | copied node begun hfind htarget hskip hbegun hcopied =>
    obtain ⟨answer, hanswer, hvols, hlast⟩ := copyAndDelete_copy hcopy hcopied
    have hbegun' : begun.source request = tree := (hbegun.wrote.source_eq hvolumes).trans htree
    rw [htree] at hfind
    have hthere : env.Calm → node = .dir → (begun.destination request).find target ≠ none := by
      intro _ hdir
      rw [hbegun.there hcalm (decide_eq_true hdir)]
      rintro ⟨⟩
    have heffect := copyEntry_effect hvolumes hsource htarget hbegun' hfind hthere hanswer
    obtain ⟨hok, more, hmore, hcounted⟩ := copyEntry_count hvolumes hsource htarget hfind hearlier hbegun'
      hmeasure hanswer (hlast.clean hclean)
    obtain ⟨made, hmade, hone⟩ := hbegun.counted
    have hall := (hmade.trans hcounted).trans hlast
    refine ⟨hall.clean hclean, ?_, fun rest hplain ↦ (heffect.complete hok rest hplain).of_volumes hvols,
      _, hall, ?_⟩
    · have hstart : Wrote request (Reaches tree source target) (target <+: ·) session begun := by
        refine hbegun.wrote.mono (fun _ hfalse ↦ hfalse.elim) ?_
        rintro path rfl
        exact prefix_rfl
      exact (hstart.trans heffect.wrote).trans (.of_volumes hvols)
    · have hsame := hone hcalm
      simp only [decide_eq_true_eq] at hsame
      rw [hfind, some_inj]
      exact copied_eq_measure hsame hmore

theorem TransferStep.clean (hcopy : request.op = .copy) (hvolumes : request.srcVolume ≠ request.dstVolume)
    (hsource : Addressable source)
    (hstep : TransferStep env request fuel source target session after) (hclean : after.Clean) :
    session.Clean := by
  cases hstep with
  | givenUp hquiet hnot => exact absurd hclean hnot
  | copied node begun hfind htarget hskip hbegun hcopied =>
    obtain ⟨answer, hanswer, -, hlast⟩ := copyAndDelete_copy hcopy hcopied
    obtain ⟨made, hmade, -⟩ := hbegun.counted
    exact hmade.clean (copyEntry_clean hvolumes hsource.entryNames htarget hanswer (hlast.clean hclean))

theorem TransferStep.free (hcalm : env.Calm) (hconflict : request.conflict = .skip)
    (hstep : TransferStep env request fuel source target session after) (hclean : after.Clean) :
    (session.destination request).find target = none := by
  cases hstep with
  | givenUp hquiet hnot => exact absurd hclean hnot
  | copied node begun hfind htarget hskip hbegun hcopied => exact hskip hcalm hconflict

namespace PathCopied

variable {other : List Bytes}

theorem not_touched {otherName : Bytes} {rest : List Bytes}
    (hname : otherName ≠ name) (hplain : Plain (dstDir ++ [otherName] ++ rest)) :
    ¬Reaches tree source (dstDir ++ [name]) (dstDir ++ [otherName] ++ rest) := by
  intro hreaches
  obtain ⟨rest', -, hpath, -⟩ := hreaches.of_plain (by simp) hplain
  have hlist : otherName :: rest = name :: rest' := by simpa using hpath
  exact hname (cons.inj hlist).1

theorem find_ne_none (hcopied : PathCopied env request tree source target measure session after)
    (hroot : target ≠ []) (hplain : Plain path) (htaken : (session.destination request).find path ≠ none) :
    (after.destination request).find path ≠ none := by
  by_cases htouched : Reaches tree source target path
  · obtain ⟨rest, content, rfl, hfile⟩ := htouched.of_plain hroot hplain
    rw [(hcopied.placed rest hplain).file content hfile]
    rintro ⟨⟩
  · exact hcopied.wrote.grows.find_ne_none htaken htouched

theorem find_eq_none {otherName : Bytes}
    (hcopied : PathCopied env request tree source (dstDir ++ [name]) measure session after)
    (hname : otherName ≠ name) (hplain : Plain (dstDir ++ [otherName]))
    (hfree : (session.destination request).find (dstDir ++ [otherName]) = none) :
    (after.destination request).find (dstDir ++ [otherName]) = none := by
  refine hcopied.wrote.grows.find_eq_none hfree ?_ ?_
  · rw [← append_nil (dstDir ++ [otherName])] at hplain ⊢
    exact not_touched hname hplain
  · rw [prefix_append_right_inj]
    intro hbelow
    exact hname (cons_prefix_cons.mp hbelow).1.symm

end PathCopied

/-! ## All selected entries -/

def Apart (request : TransferRequest) (tree : Tree) (dstDir : List Bytes) (paths : List Bytes) : Prop :=
  ∀ raw ∈ paths, ∀ other ∈ paths, ∀ dir dir' name, Selected request tree dstDir raw dir name →
    Selected request tree dstDir other dir' name → dir = dir'

structure MadeOnce (request : TransferRequest) (tree : Tree) (dstDir : List Bytes)
    (paths : List Bytes) (destination : Tree) : Prop where
  free : ∀ raw ∈ paths, ∀ dir name, Selected request tree dstDir raw dir name →
    tree.find (dir ++ [name]) = some .dir → destination.find (dstDir ++ [name]) = none
  once : paths.Pairwise fun raw other ↦ ∀ dir name, Selected request tree dstDir raw dir name →
    Selected request tree dstDir other dir name → tree.find (dir ++ [name]) ≠ some .dir

theorem plain_target (haddr : Addressable dstDir)
    (hsel : Selected request tree dstDir raw dir name) : Plain (dstDir ++ [name]) := by
  refine forall_mem_append.mpr ⟨plain_of_addressable haddr, ?_⟩
  exact fun part hpart ↦ plain_of_addressable hsel.addressable part (mem_append_right dir hpart)

variable {paths : List Bytes}

theorem MadeOnce.tail (haddr : Addressable dstDir)
    (hsel : Selected request tree dstDir raw dir name)
    (hapart : Apart request tree dstDir (raw :: paths))
    (hmade : MadeOnce request tree dstDir (raw :: paths) (session.destination request))
    (hcopied : PathCopied env request tree (dir ++ [name]) (dstDir ++ [name]) measure session
      after) : MadeOnce request tree dstDir paths (after.destination request) := by
  obtain ⟨honce, hlater⟩ := pairwise_cons.mp hmade.once
  refine ⟨fun other hother dir' name' hsel' hdir ↦ ?_, hlater⟩
  have hmem := mem_cons_of_mem raw hother
  refine hcopied.find_eq_none ?_ (plain_target haddr hsel')
    (hmade.free other hmem dir' name' hsel' hdir)
  rintro rfl
  obtain rfl := hapart other hmem raw mem_cons_self dir' dir name' hsel' hsel
  exact honce other hother dir' name' hsel hsel' hdir

structure RunCopied (env : Environment) (request : TransferRequest) (tree : Tree)
    (dstDir : List Bytes) (paths : List Bytes) (measures : List Measure) (session after : Session) :
    Prop where
  clean : session.Clean
  wrote : Wrote request
    (fun path ↦ ∃ raw ∈ paths, ∃ dir name, Selected request tree dstDir raw dir name ∧
      Reaches tree (dir ++ [name]) (dstDir ++ [name]) path) (fun _ ↦ True) session after
  placed : ∀ raw ∈ paths, ∀ dir name rest, Selected request tree dstDir raw dir name →
    Plain (dstDir ++ [name] ++ rest) → Placed env request tree (dir ++ [name]) (dstDir ++ [name]) rest after
  counted : ∃ copied, Counted copied session after ∧ copied.bytes = measures.sum.bytes ∧
    copied.files = measures.sum.files ∧
      (MadeOnce request tree dstDir paths (session.destination request) → copied = measures.sum)

variable {measures : List Measure}

theorem RunCopied.cons {next : Session}
    (haddr : Addressable dstDir) (hsel : Selected request tree dstDir raw dir name)
    (hapart : Apart request tree dstDir (raw :: paths))
    (hfirst : PathCopied env request tree (dir ++ [name]) (dstDir ++ [name]) measure session next)
    (hrest : RunCopied env request tree dstDir paths measures next after) :
    RunCopied env request tree dstDir (raw :: paths) (measure :: measures) session after := by
  refine ⟨hfirst.clean, ?_, ?_, ?_⟩
  · refine (hfirst.wrote.mono (fun path hpath ↦ ?_) fun _ _ ↦ trivial).trans
      (hrest.wrote.mono (fun path hpath ↦ ?_) fun _ _ ↦ trivial)
    · exact ⟨raw, mem_cons_self, dir, name, hsel, hpath⟩
    · obtain ⟨raw', hraw', hpath⟩ := hpath
      exact ⟨raw', mem_cons_of_mem raw hraw', hpath⟩
  · refine forall_mem_cons.mpr ⟨fun dir' name' rest hother hplain ↦ ?_, hrest.placed⟩
    obtain ⟨rfl, rfl⟩ := split_unique hother.split hsel.split
    by_cases hagain : ∃ raw' ∈ paths, ∃ dir', Selected request tree dstDir raw' dir' name'
    · obtain ⟨raw', hraw', dir'', hsel'⟩ := hagain
      obtain rfl := hapart raw' (mem_cons_of_mem raw hraw') raw mem_cons_self dir'' dir' name'
        hsel' hsel
      exact hrest.placed raw' hraw' dir'' name' rest hsel' hplain
    · refine (hfirst.placed rest hplain).wrote hrest.wrote ?_
      rintro ⟨raw', hraw', dir'', name'', hsel', hreaches⟩
      refine PathCopied.not_touched ?_ hplain hreaches
      rintro rfl
      exact hagain ⟨raw', hraw', dir'', hsel'⟩
  · obtain ⟨copied, hcounted, hbytes, hfiles, hall⟩ := hfirst.counted
    obtain ⟨later, hcounted', hbytes', hfiles', hall'⟩ := hrest.counted
    refine ⟨copied + later, hcounted.trans hcounted', ?_, ?_, fun hmade ↦ ?_⟩
    · exact congrArg₂ (· + ·) hbytes hbytes'
    · exact congrArg₂ (· + ·) hfiles hfiles'
    · rw [sum_cons, hall fun hdir ↦ hmade.free raw mem_cons_self dir name hsel hdir,
        hall' (hmade.tail haddr hsel hapart hfirst)]

theorem transferRound_step {next : Session} (haddr : Addressable dstDir)
    (hsel : Selected request tree dstDir raw dir name)
    (hnext : (if session.report.cancelled then some session
      else transferPath env request fuel (buildPath dstDir) raw session) = some next) :
    TransferStep env request fuel (dir ++ [name]) (dstDir ++ [name]) session next := by
  split_ifs at hnext with hcancelled
  · cases hnext
    refine .givenUp ⟨rfl, rfl, rfl⟩ ?_
    rintro ⟨-, -, hnot⟩
    rw [hcancelled] at hnot
    cases hnot
  · exact transferPath_step haddr hsel hnext

theorem transferPaths_clean (hcopy : request.op = .copy)
    (hvolumes : request.srcVolume ≠ request.dstVolume) (haddr : Addressable dstDir)
    (hsel : ∀ raw ∈ paths, ∃ dir name, Selected request tree dstDir raw dir name)
    (hafter : paths.foldlM (fun session raw ↦
        if session.report.cancelled then some session
        else transferPath env request fuel (buildPath dstDir) raw session) session = some after)
    (hclean : after.Clean) : session.Clean := by
  by_contra hnot
  refine Worklist.foldlM_invariant (fun session ↦ ¬session.Clean) ?_ hafter hnot hclean
  intro session raw next hnot hraw hnext hclean
  obtain ⟨dir, name, hraw⟩ := hsel raw hraw
  have hstep := transferRound_step haddr hraw hnext
  exact hnot (hstep.clean hcopy hvolumes hraw.addressable hclean)

theorem transferPaths_copied {destination : Tree}
    {measuring : Nat} (hcalm : env.Calm) (hcopy : request.op = .copy)
    (hvolumes : request.srcVolume ≠ request.dstVolume) (haddr : Addressable dstDir)
    (hsel : ∀ raw ∈ paths, ∃ dir name, Selected request tree dstDir raw dir name)
    (hapart : Apart request tree dstDir paths)
    (hmeasures : List.Forall₂ (MeasuredAs env request measuring tree destination dstDir) paths
      measures)
    (htree : session.source request = tree)
    (htaken : ∀ path, Plain path → destination.find path ≠ none →
      (session.destination request).find path ≠ none)
    (hafter : paths.foldlM (fun session raw ↦
        if session.report.cancelled then some session
        else transferPath env request fuel (buildPath dstDir) raw session) session = some after)
    (hclean : after.Clean) :
    RunCopied env request tree dstDir paths measures session after := by
  induction hmeasures generalizing session with
  | nil =>
    cases hafter
    exact ⟨hclean, .of_volumes rfl, by simp, 0, ⟨rfl, rfl, id⟩, rfl, rfl, fun _ ↦ rfl⟩
  | @cons raw measure paths measures hmeasure hmeasures ih =>
    obtain ⟨⟨dir, name, hraw⟩, hpaths⟩ := forall_mem_cons.mp hsel
    rw [foldlM_cons] at hafter
    obtain ⟨next, hnext, hrest⟩ := bind_eq_some_iff.mp hafter
    have hapart' : Apart request tree dstDir paths := fun raw' hraw' other hother ↦
      hapart raw' (mem_cons_of_mem raw hraw') other (mem_cons_of_mem raw hother)
    have hclean' := transferPaths_clean hcopy hvolumes haddr hpaths hrest hclean
    have hstep := transferRound_step haddr hraw hnext
    have hplain := plain_target haddr hraw
    rcases hmeasure dir name hraw with ⟨hconflict, hskipped⟩ | ⟨earlier, measured, hearlier, hmeasure⟩
    · exact absurd (hstep.free hcalm hconflict hclean') (htaken _ hplain hskipped)
    · have hfirst := hstep.copies hcalm hcopy hvolumes hraw.addressable htree hearlier hmeasure hclean'
      refine .cons haddr hraw hapart hfirst (ih hpaths hapart' ?_ ?_ hrest)
      · exact (hfirst.wrote.source_eq hvolumes).trans htree
      · intro path hpath hthere
        exact hfirst.find_ne_none (by simp) hpath (htaken path hpath hthere)

/-! ## Every copy -/

/-- Entries of one name are one entry, as they are where all come from one directory. -/
def NamedApart (request : TransferRequest) : Prop :=
  ∀ raw ∈ request.paths, ∀ other ∈ request.paths, ∀ dir dir' name,
    splitSegments raw = some (dir ++ [name]) → splitSegments other = some (dir' ++ [name]) → dir = dir'

def Corresponds (request : TransferRequest) (volumes : Bytes → Tree) (place : List Bytes) : Prop :=
  ∃ raw ∈ request.paths, ∃ dir name rest content dstDir,
    splitSegments raw = some (dir ++ [name]) ∧ splitSegments request.dstPath = some dstDir ∧
      (volumes request.srcVolume).find (dir ++ [name] ++ rest) = some (.file content) ∧
        place = dstDir ++ [name] ++ rest

/-- The place of every selected directory is free, and no directory is selected twice. -/
structure DirsMade (request : TransferRequest) (volumes : Bytes → Tree) : Prop where
  free : ∀ raw ∈ request.paths, ∀ dir name dstDir, splitSegments raw = some (dir ++ [name]) →
    splitSegments request.dstPath = some dstDir →
      (volumes request.srcVolume).find (dir ++ [name]) = some .dir →
        (volumes request.dstVolume).find (dstDir ++ [name]) = none
  once : request.paths.Pairwise fun raw other ↦ ∀ entry, splitSegments raw = some entry →
    splitSegments other = some entry → (volumes request.srcVolume).find entry ≠ some .dir

/-- The parts of uploads are not copied, and a part beside a copied file is written over. -/
structure CopyCorrect (request : TransferRequest) (volumes : Bytes → Tree) (session : Session) : Prop where
  files : ∀ raw ∈ request.paths, ∀ dir name rest content dstDir,
    splitSegments raw = some (dir ++ [name]) → splitSegments request.dstPath = some dstDir → Plain rest →
      (volumes request.srcVolume).find (dir ++ [name] ++ rest) = some (.file content) →
        (session.destination request).find (dstDir ++ [name] ++ rest) = some (.file content)
  dirs : ∀ raw ∈ request.paths, ∀ dir name rest dstDir,
    splitSegments raw = some (dir ++ [name]) → splitSegments request.dstPath = some dstDir → Plain rest →
      (volumes request.srcVolume).find (dir ++ [name] ++ rest) = some .dir →
        (session.destination request).find (dstDir ++ [name] ++ rest) = some .dir ∨
          ∃ content, (volumes request.dstVolume).find (dstDir ++ [name] ++ rest) = some (.file content)
  others : ∀ path content, (volumes request.dstVolume).find path = some (.file content) →
    ¬Corresponds request volumes path →
      (∀ place, Corresponds request volumes place → path ≠ FileSink.partOf place) →
        (session.destination request).find path = some (.file content)
  source : session.source request = volumes request.srcVolume
  filesDone : session.report.filesDone = session.report.filesTotal
  doneBytes : session.report.doneBytes = session.report.totalBytes
  dirsDone : DirsMade request volumes → session.report.dirsDone = session.report.dirsTotal

variable {volumes : Bytes → Tree}

theorem NamedApart.apart (hapart : NamedApart request) : Apart request tree dstDir request.paths :=
  fun raw hraw other hother dir dir' name hsel hsel' ↦
    hapart raw hraw other hother dir dir' name hsel.split hsel'.split

theorem DirsMade.madeOnce (hmade : DirsMade request volumes) (hdst : Accepted request volumes dstDir) :
    MadeOnce request (volumes request.srcVolume) dstDir request.paths (volumes request.dstVolume) where
  free raw hraw dir name hsel := hmade.free raw hraw dir name dstDir hsel.split hdst.split
  once := hmade.once.imp fun hpair _ _ hsel hsel' ↦ hpair _ hsel.split hsel'.split

theorem Reaches.corresponds (hdst : Accepted request volumes dstDir) (hraw : raw ∈ request.paths)
    (hsel : Selected request (volumes request.srcVolume) dstDir raw dir name)
    (hreaches : Reaches (volumes request.srcVolume) (dir ++ [name]) (dstDir ++ [name]) path) :
    Corresponds request volumes path ∨
      ∃ place, Corresponds request volumes place ∧ path = FileSink.partOf place := by
  obtain ⟨rest, content, -, hfile, hpath⟩ := hreaches
  have hplace : Corresponds request volumes (dstDir ++ [name] ++ rest) :=
    ⟨raw, hraw, dir, name, rest, content, dstDir, hsel.split, hdst.split, hfile, rfl⟩
  rcases hpath with rfl | rfl
  · exact .inl hplace
  · exact .inr ⟨_, hplace, rfl⟩

theorem RunCopied.correct (hcalm : env.Calm)
    (hapart : NamedApart request)
    (hvolumes : request.srcVolume ≠ request.dstVolume) (hdst : Accepted request volumes dstDir)
    (hbefore : session.volumes = volumes) (hdone : session.done = 0)
    (htotal : session.total = measures.sum)
    (hcopied : RunCopied env request (volumes request.srcVolume) dstDir request.paths measures
      session after) : CopyCorrect request volumes after := by
  have hunique {raw : Bytes} {dir : List Bytes} {name : Bytes} (hraw : raw ∈ request.paths)
      (hsplit : splitSegments raw = some (dir ++ [name])) :
      Selected request (volumes request.srcVolume) dstDir raw dir name := by
    obtain ⟨dir', name', hsel⟩ := hdst.paths raw hraw
    obtain ⟨rfl, rfl⟩ := split_unique hsplit hsel.split
    exact hsel
  have hdestination : session.destination request = volumes request.dstVolume := congrFun hbefore _
  have hplaced {raw : Bytes} {dir rest : List Bytes} {name : Bytes} (hraw : raw ∈ request.paths)
      (hsplit : splitSegments raw = some (dir ++ [name])) (hplain : Plain rest) :
      Plain (dstDir ++ [name] ++ rest) ∧ Placed env request (volumes request.srcVolume)
        (dir ++ [name]) (dstDir ++ [name]) rest after := by
    have hsel := hunique hraw hsplit
    have hall := forall_mem_append.mpr ⟨plain_target hdst.addressable hsel, hplain⟩
    exact ⟨hall, hcopied.placed raw hraw dir name rest hsel hall⟩
  obtain ⟨copied, hcounted, hbytes, hfiles, hmade⟩ := hcopied.counted
  have hdone' : after.done = copied := by rw [hcounted.done, hdone, Measure.zero_add]
  have htotal' : after.total = measures.sum := hcounted.total.trans htotal
  refine ⟨?_, ?_, ?_, ?_, ?_, ?_, fun hfree ↦ ?_⟩
  · intro raw hraw dir name rest content same hsplit hsame hplain hfile
    obtain rfl := Option.some.inj (hdst.split.symm.trans hsame)
    exact (hplaced hraw hsplit hplain).2.file content hfile
  · intro raw hraw dir name rest same hsplit hsame hplain hdir
    obtain rfl := Option.some.inj (hdst.split.symm.trans hsame)
    obtain ⟨hall, hplace⟩ := hplaced hraw hsplit hplain
    obtain ⟨node, hnode⟩ := ne_none_iff_exists'.mp (hplace.dir hcalm hdir)
    cases node with
    | dir => exact .inl hnode
    | file content =>
      -- a file at the place of a directory has not been written by the copy
      refine .inr ⟨content, ?_⟩
      rw [← hdestination, ← hcopied.wrote.grows.files _ content, hnode]
      rintro ⟨raw', hraw', dir', name', hsel', hreaches⟩
      obtain ⟨rest', content', hpath, hfile⟩ := hreaches.of_plain (by simp) hall
      have hlist : name :: rest = name' :: rest' := by simpa using hpath
      obtain ⟨rfl, rfl⟩ := cons.inj hlist
      obtain rfl := hapart raw hraw raw' hraw' dir dir' name hsplit hsel'.split
      cases hdir.symm.trans hfile
  · intro path content hfile hnot hpart
    rw [← hdestination] at hfile
    refine (hcopied.wrote.grows.files path content ?_).mpr hfile
    rintro ⟨raw, hraw, dir, name, hsel, hreaches⟩
    rcases hreaches.corresponds hdst hraw hsel with hplace | ⟨place, hplace, rfl⟩
    · exact hnot hplace
    · exact hpart place hplace rfl
  · rw [hcopied.wrote.source_eq hvolumes, Session.source, hbefore]
  · exact (congrArg Measure.files hdone').trans (hfiles.trans (congrArg Measure.files htotal').symm)
  · exact (congrArg Measure.bytes hdone').trans (hbytes.trans (congrArg Measure.bytes htotal').symm)
  · have hall := hmade (hdestination ▸ hfree.madeOnce hdst)
    rw [hall, ← htotal'] at hdone'
    exact congrArg Measure.dirs hdone'

theorem CopyCorrect.finish (hcorrect : CopyCorrect request volumes session) :
    CopyCorrect request volumes session.finish := by
  obtain ⟨hfiles, hdirs, hothers, hsource, hfilesDone, hdoneBytes, hdirsDone⟩ := hcorrect
  exact ⟨hfiles, hdirs, hothers, hsource, hfilesDone, hdoneBytes, hdirsDone⟩

/-- A copy to another volume ends, and where it reports no failure, skip or cancellation it is correct. -/
theorem copy_is_correct {volumes : Bytes → Volume} (hcopy : request.op = .copy)
    (hvolumes : request.srcVolume ≠ request.dstVolume) (hapart : NamedApart request)
    (hcalm : env.Calm) :
    (Worklist.Settles fun fuel ↦
        run env request fuel fun volume ↦ (volumes volume).toFileTree) ∧
      ∀ fuel session,
        run env request fuel (fun volume ↦ (volumes volume).toFileTree) = some session →
          session.Clean → CopyCorrect request (fun volume ↦ (volumes volume).toFileTree) session := by
  refine ⟨run_settles env request volumes, fun fuel session hrun hclean ↦ ?_⟩
  rcases run_cases hrun with ⟨-, hnot⟩ | ⟨dstDir, begun, hdst, hquiet, hreport, haccepted⟩
  · exact absurd hclean hnot
  · generalize (fun volume ↦ (volumes volume).toFileTree) = trees at hdst hquiet hreport hrun ⊢
    unfold runAccepted at haccepted
    rw [if_neg (by simp [hcopy])] at haccepted
    obtain ⟨last, hlast, rfl⟩ := map_eq_some_iff.mp haccepted
    have hclean' : last.Clean := hclean
    obtain ⟨measured, hmeasured, hrest⟩ := measureAndCopy_cases hlast
    rcases hrest with ⟨-, hnot⟩ | htransfer
    · exact absurd hclean' hnot
    · have hsource : (begun.directed (buildPath dstDir)).source request = trees request.srcVolume :=
        congrFun hquiet.volumes request.srcVolume
      have hsel : ∀ raw ∈ request.paths, ∃ dir name, Selected request
          ((begun.directed (buildPath dstDir)).source request) dstDir raw dir name := by
        rw [hsource]
        exact hdst.paths
      have hpaths : ∀ raw ∈ request.paths,
          ∃ dir name, Selected request (trees request.srcVolume) dstDir raw dir name := hdst.paths
      have hcopying := transferPaths_clean hcopy hvolumes hdst.addressable hpaths htransfer hclean'
      obtain ⟨-, hdone, measures, htotal, hmeasures⟩ :=
        measurePaths_total hdst.addressable hsel hmeasured hcopying
      have hvols : (measured.tick.compared (env.free measured.clock)).copying.volumes = trees :=
        (measurePaths_quiet hmeasured).volumes.trans hquiet.volumes
      have hdestination : (begun.directed (buildPath dstDir)).destination request =
          trees request.dstVolume := congrFun hquiet.volumes request.dstVolume
      rw [hsource, hdestination] at hmeasures
      have htaken : ∀ path, Plain path → (trees request.dstVolume).find path ≠ none →
          ((measured.tick.compared (env.free measured.clock)).copying.destination request).find
            path ≠ none := by
        intro path _ hthere
        rw [Session.destination, hvols]
        exact hthere
      have hcopied := transferPaths_copied hcalm hcopy hvolumes hdst.addressable hpaths hapart.apart
        hmeasures (congrFun hvols request.srcVolume) htaken htransfer hclean'
      have hzero : (begun.directed (buildPath dstDir)).done = 0 ∧
          (begun.directed (buildPath dstDir)).total = 0 := by
        rw [Session.done, Session.total, Session.directed, hreport]
        exact ⟨rfl, rfl⟩
      refine (hcopied.correct hcalm hapart hvolumes hdst hvols ?_ ?_).finish
      · exact hdone.trans hzero.1
      · refine htotal.trans ?_
        rw [hzero.2, Measure.zero_add]

def shelf : Volume :=
  .ofEntries
    [([ascii "a"], .dir), ([ascii "a", ascii "x.part"], .file [1]), ([ascii "b"], .file [1]),
      ([ascii "c"], .dir), ([ascii "c", ascii "d"], .dir), ([ascii "x"], .dir), ([ascii "y"], .dir),
      ([ascii "x", ascii "f"], .file [1]), ([ascii "y", ascii "f"], .file [2])]
    (by decide) (by decide) (by decide) (by decide)

def card : Volume :=
  .ofEntries [([ascii "b.part"], .file [3]), ([ascii "c"], .dir), ([ascii "c", ascii "d"], .file [4])]
    (by decide) (by decide) (by decide) (by decide)

def shelfAndCard (volume : Bytes) : Volume := if volume = ascii "data" then shelf else card

/-- A copy from the root of one to the root of the other. -/
def copyOf (paths : List Bytes) : TransferRequest where
  conflict := .overwrite
  srcVolume := ascii "data"
  paths
  dstVolume := ascii "sd"
  dstPath := ascii "/"

theorem copy_is_correct_once :
    ∃ session ∈ run calm (copyOf [ascii "/a", ascii "/x"]) 20 fun volume ↦ (shelfAndCard volume).toFileTree,
      CopyCorrect (copyOf [ascii "/a", ascii "/x"]) (fun volume ↦ (shelfAndCard volume).toFileTree)
        session := by
  have hrun : ∃ session ∈ run calm (copyOf [ascii "/a", ascii "/x"]) 20
      fun volume ↦ (shelfAndCard volume).toFileTree, session.Clean := by
    decide +kernel
  obtain ⟨session, hsession, hclean⟩ := hrun
  have hpaths : ∀ raw ∈ (copyOf [ascii "/a", ascii "/x"]).paths, ∀ dir name,
      splitSegments raw = some (dir ++ [name]) → dir = [] := by
    have hsplit : ∀ raw ∈ (copyOf [ascii "/a", ascii "/x"]).paths,
        ∃ last ∈ splitSegments raw, last.length = 1 := by
      decide
    intro raw hraw dir name hname
    obtain ⟨last, hlast, hlength⟩ := hsplit raw hraw
    obtain rfl := Option.some.inj (hlast.symm.trans hname)
    rw [length_append, length_singleton] at hlength
    exact length_eq_zero_iff.mp (by omega)
  have hapart : NamedApart (copyOf [ascii "/a", ascii "/x"]) := by
    intro raw hraw other hother dir dir' name hname hname'
    rw [hpaths raw hraw dir name hname, hpaths other hother dir' name hname']
  exact ⟨session, hsession,
    (copy_is_correct rfl (by decide) hapart fun _ ↦ rfl).2 20 session hsession hclean⟩

/-- A part is not copied and a part at the destination is written over; a file stays where a directory
belongs, and a directory that is there already is not counted; of two files of one name one is left. -/
theorem copy_differs :
    (∃ session ∈ run calm (copyOf [ascii "/a"]) 20 fun volume ↦ (shelfAndCard volume).toFileTree,
      session.Clean ∧ (session.volumes (ascii "sd")).find [ascii "a", ascii "x.part"] = none) ∧
    (∃ session ∈ run calm (copyOf [ascii "/b"]) 20 fun volume ↦ (shelfAndCard volume).toFileTree,
      session.Clean ∧ (session.volumes (ascii "sd")).find [ascii "b.part"] = none) ∧
    (∃ session ∈ run calm (copyOf [ascii "/c"]) 20 fun volume ↦ (shelfAndCard volume).toFileTree,
      session.Clean ∧ (session.volumes (ascii "sd")).find [ascii "c", ascii "d"] = some (.file [4]) ∧
          session.report.dirsDone ≠ session.report.dirsTotal) ∧
    ∃ session ∈ run calm (copyOf [ascii "/x/f", ascii "/y/f"]) 20
        fun volume ↦ (shelfAndCard volume).toFileTree,
      session.Clean ∧ (session.volumes (ascii "sd")).find [ascii "f"] = some (.file [2]) := by
  decide +kernel

end DhcpServer.Files.TransferEngine
