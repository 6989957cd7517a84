import DhcpServer.Library.FileTree
import DhcpServer.Storage.PathUtil

/-!
# File operations on a volume

`FileManager` as the transfer engine uses it, and the sink a file is written through. A volume is a
file tree. An operation gets a `Fate`, which says whether the volume or a call of the operating system
refuses it, and answers with a status and, where it changes something, with the tree it leaves.
-/

namespace DhcpServer.Files

open Library Storage.PathUtil List Option

inductive FileStatus
  | ok
  | invalidPath
  | notFound
  | notMounted
  | alreadyExists
  | notEmpty
  | conflict
  | tooLarge
  | notText
  | noSpace
  | busy
  | ioError
  | unsupported
deriving DecidableEq

def messageFor : FileStatus → Bytes
  | .ok => ascii "ok"
  | .invalidPath => ascii "invalid path"
  | .notFound => ascii "not found"
  | .notMounted => ascii "volume is not mounted"
  | .alreadyExists => ascii "already exists"
  | .notEmpty => ascii "directory is not empty"
  | .conflict => ascii "file changed on the volume"
  | .busy => ascii "the volume is busy with another operation"
  | .tooLarge => ascii "file is too large for the editor"
  | .notText => ascii "file is not a text file"
  | .noSpace => ascii "not enough free space on the volume"
  | .ioError => ascii "filesystem error"
  | .unsupported => ascii "operation not supported for this volume"

structure FileEntry where
  name : Bytes := []
  isDir : Bool := false
  size : Nat := 0
deriving DecidableEq

abbrev Tree := FileTree Bytes Bytes

structure Volume extends FileTree Bytes Bytes where
  names : ∀ entry ∈ entries, ∀ name ∈ entry.1, EntryName name

def Volume.ofEntries (entries : List (List Bytes × Node Bytes)) (hnodup : (entries.map Prod.fst).Nodup)
    (hroot : ∀ entry ∈ entries, entry.1 ≠ [])
    (hparent : ∀ entry ∈ entries, entry.1.dropLast = [] ∨ (entry.1.dropLast, .dir) ∈ entries)
    (hnames : ∀ entry ∈ entries, ∀ name ∈ entry.1, EntryName name) : Volume where
  entries
  nodup := hnodup
  root node hmem := hroot _ hmem rfl
  parent path name node hmem := by simpa using hparent _ hmem
  names := hnames

structure Fate where
  /-- The status of a volume that is not there or busy, or of a call that fails. -/
  refused : Option FileStatus := none
  /-- The text of the error. -/
  text : Bytes := []
  /-- The entries that a removal of a tree cannot unlink. -/
  sticks : List Bytes → Bool := fun _ ↦ false

/-- A status that is not `ok`, with what the operation writes to `detail`, if anything. -/
structure Failure where
  status : FileStatus
  detail : Option Bytes := none

/-- How the calls of one request go, one after the other. -/
structure Calls where
  fate : Nat → Fate := fun _ ↦ {}
  /-- how many bytes a call gets through before it fails -/
  reach : Nat → Nat := fun _ ↦ 0

def Calls.from (calls : Calls) (first : Nat) : Calls where
  fate call := calls.fate (first + call)
  reach call := calls.reach (first + call)

namespace FileManager

/-- The names of the absolute path, where the policy allows the path. -/
def absolute (path : Bytes) : Option (List Bytes) :=
  (splitSegments path).filter fun names ↦ (buildPath names).length ≤ kMaxPathLen

def missing : Failure := ⟨.notFound, some (ascii "No such file or directory")⟩

def entryOf (name : Bytes) : Node Bytes → FileEntry
  | .file content => ⟨name, false, content.length⟩
  | .dir => ⟨name, true, 0⟩

/-- The frame of every operation: a refusal, then the path. -/
def within {Answer : Type} (fate : Fate) (path : Bytes)
    (operation : List Bytes → Except Failure Answer) : Except Failure Answer :=
  match fate.refused with
  | some status => .error ⟨status, some fate.text⟩
  | none =>
    match absolute path with
    | none => .error ⟨.invalidPath, none⟩
    | some names => operation names

def stat (fate : Fate) (tree : Tree) (path : Bytes) : Except Failure FileEntry :=
  within fate path fun names ↦
    if names = [] then .error ⟨.invalidPath, none⟩
    else
      match tree.find names with
      | none => .error missing
      | some node => .ok (entryOf (basename (buildPath names)) node)

/-- The entries a walk of a directory visits. The temporary files of uploads are left out. -/
def visible (tree : Tree) (names : List Bytes) : List FileEntry :=
  (tree.children names).filterMap fun child ↦
    if isPartName child.1 then none else some (entryOf child.1 child.2)

def scan (fate : Fate) (tree : Tree) (path : Bytes) : Except Failure (List FileEntry) :=
  within fate path fun names ↦
    if tree.IsDir names then .ok (visible tree names)
    else if tree.find names = none then .error missing
    else .error ⟨.invalidPath, none⟩

def mkdir (fate : Fate) (tree : Tree) (path : Bytes) : Except Failure Tree :=
  within fate path fun names ↦
    if names = [] ∨ tree.find names ≠ none then .error ⟨.alreadyExists, none⟩
    else
      match tree.mkdir names with
      | none => .error ⟨.ioError, some (ascii "No such file or directory")⟩
      | some made => .ok made

/-- A removal that fails on the way has removed what it could. -/
def remove (fate : Fate) (tree : Tree) (path : Bytes) (recursive : Bool) : Except Failure Unit × Tree :=
  match within fate path .ok with
  | .error failure => (.error failure, tree)
  | .ok names =>
    if names = [] then (.error ⟨.invalidPath, none⟩, tree)
    else
      match tree.find names with
      | none => (.error missing, tree)
      | some .dir =>
        if !recursive && !(tree.children names).isEmpty then (.error ⟨.notEmpty, none⟩, tree)
        else
          let left := tree.removeTree names fate.sticks
          if left.find names = none then (.ok (), left)
          else (.error ⟨.ioError, some fate.text⟩, left)
      | some (.file _) =>
        match tree.unlink names with
        | none => (.error ⟨.ioError, some fate.text⟩, tree)
        | some left => (.ok (), left)

def rename (fate : Fate) (tree : Tree) (source target : Bytes) : Except Failure Tree :=
  within fate source fun sourceNames ↦
    within fate target fun targetNames ↦
      if sourceNames = [] ∨ targetNames = [] then .error ⟨.invalidPath, none⟩
      else if (buildPath sourceNames ++ [slash]).isPrefixOf (buildPath targetNames) then
        .error ⟨.invalidPath, none⟩
      else if tree.find targetNames ≠ none then .error ⟨.alreadyExists, none⟩
      else if tree.find sourceNames = none then .error missing
      else
        match tree.rename sourceNames targetNames with
        | none => .error ⟨.ioError, some (ascii "No such file or directory")⟩
        | some moved => .ok moved

def openRead (fate : Fate) (tree : Tree) (path : Bytes) : Except Failure Bytes :=
  within fate path fun names ↦
    if names = [] then .error ⟨.invalidPath, none⟩
    else
      match tree.find names with
      | none => .error missing
      | some .dir => .error ⟨.invalidPath, none⟩
      | some (.file content) => .ok content

/-! ## What the operations do -/

variable {fate : Fate} {tree made moved : Tree} {path target : Bytes} {names segments : List Bytes}

theorem absolute_buildPath (haddr : Addressable names) : absolute (buildPath names) = some names := by
  rw [absolute, splitSegments_buildPath haddr.names haddr.depth, filter_some,
    if_pos (decide_eq_true haddr.length)]

theorem absolute_eq_some (habs : absolute path = some names) :
    splitSegments path = some names ∧ Addressable names := by
  obtain ⟨hsplit, hlength⟩ := filter_eq_some_iff.mp habs
  obtain ⟨hnames, hdepth⟩ := splitSegments_spec hsplit
  exact ⟨hsplit, hnames, hdepth, of_decide_eq_true hlength⟩

theorem absolute_buildPath_eq (hnames : ∀ name ∈ segments, EntryName name)
    (habs : absolute (buildPath segments) = some names) : segments = names ∧ Addressable names := by
  obtain ⟨hsplit, haddr⟩ := absolute_eq_some habs
  exact ⟨(splitSegments_buildPath_eq hnames hsplit).symm, haddr⟩

theorem within_eq_ok {Answer : Type} {operation : List Bytes → Except Failure Answer} {answer : Answer}
    (hok : within fate path operation = .ok answer) :
    ∃ names, absolute path = some names ∧ operation names = .ok answer := by
  unfold within at hok
  split at hok
  case h_1 => cases hok
  case h_2 =>
    split at hok
    case h_1 => cases hok
    case h_2 names habs => exact ⟨names, habs, hok⟩

theorem within_of_absolute {Answer : Type} {operation : List Bytes → Except Failure Answer}
    (hcalm : fate.refused = none) (habs : absolute path = some names) :
    within fate path operation = operation names := by
  rw [within, hcalm]
  rw [habs]

theorem entryOf_isDir (name : Bytes) (node : Node Bytes) :
    (entryOf name node).isDir ↔ node = .dir := by
  cases node <;> simp [entryOf]

theorem entryOf_name (name : Bytes) (node : Node Bytes) : (entryOf name node).name = name := by
  cases node <;> rfl

theorem stat_eq_ok {entry : FileEntry} (hok : stat fate tree path = .ok entry) :
    ∃ names node, absolute path = some names ∧ tree.find names = some node ∧
      entry = entryOf (basename (buildPath names)) node := by
  obtain ⟨names, habs, hstat⟩ := within_eq_ok hok
  split_ifs at hstat
  split at hstat
  case h_1 => cases hstat
  case h_2 node hfind => exact ⟨names, node, habs, hfind, (Except.ok.inj hstat).symm⟩

theorem stat_eq_error {failure : Failure} (hcalm : fate.refused = none) (hroot : names ≠ [])
    (habs : absolute path = some names) (herror : stat fate tree path = .error failure) :
    tree.find names = none := by
  rw [stat, within_of_absolute hcalm habs, if_neg hroot] at herror
  split at herror
  case h_1 hnone => exact hnone
  case h_2 => cases herror

theorem mem_visible {entry : FileEntry} : entry ∈ visible tree names ↔ isPartName entry.name = false ∧
      ∃ node, tree.find (names ++ [entry.name]) = some node ∧ entry = entryOf entry.name node := by
  rw [visible, mem_filterMap]
  constructor
  · rintro ⟨⟨name, node⟩, hchild, hentry⟩
    split_ifs at hentry with hpart
    cases hentry
    rw [entryOf_name]
    exact ⟨by simpa using hpart, node, FileTree.mem_children.mp hchild, rfl⟩
  · rintro ⟨hpart, node, hfind, hentry⟩
    refine ⟨(entry.name, node), FileTree.mem_children.mpr hfind, ?_⟩
    rw [if_neg (by simp [hpart]), ← hentry]

theorem nodup_visible (tree : Tree) (names : List Bytes) :
    ((visible tree names).map FileEntry.name).Nodup := by
  have hnames : ((visible tree names).map FileEntry.name).Sublist
      ((tree.children names).map Prod.fst) := by
    rw [visible]
    induction tree.children names with
    | nil => exact List.Sublist.slnil
    | cons child children ih =>
      rw [filterMap_cons]
      split_ifs
      · exact ih.cons _
      · obtain ⟨name, node⟩ := child
        cases node <;> exact ih.cons_cons _
  exact (tree.nodup_children names).sublist hnames

theorem scan_eq_ok {entries : List FileEntry} (hok : scan fate tree path = .ok entries) :
    ∃ names, absolute path = some names ∧ tree.IsDir names ∧ entries = visible tree names := by
  obtain ⟨names, habs, hscan⟩ := within_eq_ok hok
  split_ifs at hscan with hdir
  exact ⟨names, habs, hdir, (Except.ok.inj hscan).symm⟩

theorem mkdir_eq_ok (hok : mkdir fate tree path = .ok made) :
    ∃ names, absolute path = some names ∧ tree.mkdir names = some made := by
  obtain ⟨names, habs, hmkdir⟩ := within_eq_ok hok
  split_ifs at hmkdir
  split at hmkdir
  case h_1 => cases hmkdir
  case h_2 same hmade =>
    cases hmkdir
    exact ⟨names, habs, hmade⟩

theorem mkdir_alreadyExists {failure : Failure} (hcalm : fate.refused = none) (hroot : names ≠ [])
    (habs : absolute path = some names) (herror : mkdir fate tree path = .error failure)
    (hstatus : failure.status = .alreadyExists) : tree.find names ≠ none := by
  rw [mkdir, within_of_absolute hcalm habs] at herror
  split_ifs at herror with htaken
  · exact htaken.resolve_left hroot
  · split at herror
    case h_1 =>
      obtain rfl := Except.error.inj herror
      cases hstatus
    case h_2 => cases herror

theorem rename_eq_ok (hok : rename fate tree path target = .ok moved) :
    ∃ source names, absolute path = some source ∧ absolute target = some names ∧
      tree.rename source names = some moved := by
  obtain ⟨source, hsource, hrename⟩ := within_eq_ok hok
  obtain ⟨names, htarget, hrename⟩ := within_eq_ok hrename
  split_ifs at hrename
  split at hrename
  case h_1 => cases hrename
  case h_2 same hmoved =>
    cases hrename
    exact ⟨source, names, hsource, htarget, hmoved⟩

theorem openRead_eq_ok {content : Bytes} (hok : openRead fate tree path = .ok content) :
    ∃ names, absolute path = some names ∧ tree.find names = some (.file content) := by
  obtain ⟨names, habs, hopen⟩ := within_eq_ok hok
  split_ifs at hopen
  split at hopen
  case h_1 => cases hopen
  case h_2 => cases hopen
  case h_3 same hfind =>
    cases hopen
    exact ⟨names, habs, hfind⟩

/-- A removal leaves the tree as it is, or takes a file, or removes what is at and below a directory. -/
theorem remove_cases (fate : Fate) (tree : Tree) (path : Bytes) (recursive : Bool) :
    (remove fate tree path recursive).2 = tree ∨ ∃ names, absolute path = some names ∧
        (tree.unlink names = some (remove fate tree path recursive).2 ∨ tree.find names = some .dir ∧
            (remove fate tree path recursive).2 = tree.removeTree names fate.sticks) := by
  unfold remove
  split
  case h_1 => exact .inl rfl
  case h_2 names hwithin =>
    obtain ⟨same, habs, hok⟩ := within_eq_ok hwithin
    obtain rfl := Except.ok.inj hok
    by_cases hroot : same = []
    · rw [if_pos hroot]
      exact .inl rfl
    · rw [if_neg hroot]
      cases hfind : tree.find same with
      | none => exact .inl rfl
      | some node =>
        cases node with
        | dir =>
          dsimp only
          split_ifs
          · exact .inl rfl
          · exact .inr ⟨same, habs, .inr ⟨hfind, rfl⟩⟩
          · exact .inr ⟨same, habs, .inr ⟨hfind, rfl⟩⟩
        | file content =>
          cases hleft : tree.unlink same with
          | none => exact .inl rfl
          | some left => exact .inr ⟨same, habs, .inl hleft⟩

end FileManager

structure FileSink where
  finalPath : List Bytes
  partPath : List Bytes

namespace FileSink

def partOf (path : List Bytes) : List Bytes :=
  path.dropLast ++ (path.getLast?.map (· ++ kUploadPartSuffix)).toList

def create (tree : Tree) (path : List Bytes) : Option (FileSink × Tree) :=
  (tree.write (partOf path) []).map fun opened ↦ (⟨path, partOf path⟩, opened)

def write (sink : FileSink) (fate : Fate) (tree : Tree) (data : Bytes) : Option Tree :=
  match fate.refused with
  | some _ => none
  | none => tree.write sink.partPath ((tree.read sink.partPath).getD [] ++ data)

def abort (sink : FileSink) (fate : Fate) (tree : Tree) : Tree :=
  match fate.refused with
  | some _ => tree
  | none => (tree.unlink sink.partPath).getD tree

/-- The old file, taken away before the new one gets its name. -/
def unlinkFinal (sink : FileSink) (fate : Fate) (tree : Tree) : Tree :=
  match fate.refused with
  | some _ => tree
  | none => (tree.unlink sink.finalPath).getD tree

/-- The flush, the removal of the old file and the rename each have a fate. A commit that fails aborts,
which is tried again when the sink goes out of scope; the fourth fate is that of all these tries. -/
def commit (sink : FileSink) (flush unlink rename abort : Fate) (tree : Tree) : Bool × Tree :=
  match flush.refused with
  | some _ => (false, sink.abort abort tree)
  | none =>
    let cleared := sink.unlinkFinal unlink tree
    match rename.refused, cleared.rename sink.partPath sink.finalPath with
    | none, some published => (true, published)
    | _, _ => (false, sink.abort abort cleared)

/-! ## What a sink touches -/

def Touches (sink : FileSink) (path : List Bytes) : Prop := path = sink.finalPath ∨ path = sink.partPath

variable {sink : FileSink} {fate : Fate} {tree opened written : Tree} {made : List Bytes → Prop}
  {path dir : List Bytes}
  {name data content : Bytes}

theorem partOf_concat (dir : List Bytes) (name : Bytes) :
    partOf (dir ++ [name]) = dir ++ [name ++ kUploadPartSuffix] := by
  simp [partOf]

theorem partOf_ne (hpath : path ≠ []) : partOf path ≠ path := by
  intro hsame
  have hconcat := dropLast_append_getLast hpath
  rw [← hconcat, partOf_concat] at hsame
  have hname := singleton_inj.mp (append_cancel_left hsame)
  have hlength := congrArg List.length hname
  rw [length_append] at hlength
  have hsuffix : kUploadPartSuffix.length = 5 := by decide
  omega

theorem create_spec (hcreate : create tree path = some (sink, opened)) :
    sink = ⟨path, partOf path⟩ ∧ tree.write (partOf path) [] = some opened := by
  obtain ⟨same, hwrite, hsink⟩ := map_eq_some_iff.mp hcreate
  cases hsink
  exact ⟨rfl, hwrite⟩

theorem write_grows (hwrite : sink.write fate tree data = some written) :
    tree.Grows sink.Touches made written := by
  unfold write at hwrite
  split at hwrite
  case h_1 => cases hwrite
  case h_2 => exact .of_write hwrite (.inr rfl)

theorem write_read (hwrite : sink.write fate tree data = some written)
    (hread : tree.find sink.partPath = some (.file content)) :
    written.find sink.partPath = some (.file (content ++ data)) := by
  unfold write at hwrite
  split at hwrite
  case h_1 => cases hwrite
  case h_2 =>
    obtain ⟨-, hfind⟩ := FileTree.write_spec hwrite
    rw [hfind, if_pos rfl, FileTree.read_eq_some_iff.mpr hread]
    rfl

theorem unlink_grows (hpath : sink.Touches path) :
    tree.Grows sink.Touches made ((tree.unlink path).getD tree) := by
  cases hleft : tree.unlink path with
  | none => exact .refl _ _ _
  | some left => exact .of_unlink hleft hpath

theorem abort_grows (sink : FileSink) (fate : Fate) (tree : Tree) :
    tree.Grows sink.Touches made (sink.abort fate tree) := by
  unfold abort
  split
  case h_1 => exact .refl _ _ _
  case h_2 => exact unlink_grows (.inr rfl)

theorem unlinkFinal_grows (sink : FileSink) (fate : Fate) (tree : Tree) :
    tree.Grows sink.Touches made (sink.unlinkFinal fate tree) := by
  unfold unlinkFinal
  split
  case h_1 => exact .refl _ _ _
  case h_2 => exact unlink_grows (.inl rfl)

theorem find_unlinkFinal (hother : path ≠ sink.finalPath) :
    (sink.unlinkFinal fate tree).find path = tree.find path := by
  unfold unlinkFinal
  split
  case h_1 => rfl
  case h_2 =>
    cases hleft : tree.unlink sink.finalPath with
    | none => rfl
    | some left =>
      obtain ⟨-, hfind⟩ := FileTree.unlink_spec hleft
      exact (hfind path).trans (if_neg hother)

variable {flush unlink rename abort : Fate}

theorem commit_grows (hpart : tree.find sink.partPath = some (.file content))
    (hne : sink.partPath ≠ sink.finalPath) :
    tree.Grows sink.Touches made (sink.commit flush unlink rename abort tree).2 := by
  have hcleared : tree.Grows sink.Touches made (sink.unlinkFinal unlink tree) :=
    unlinkFinal_grows sink unlink tree
  unfold commit
  split
  case h_1 => exact abort_grows sink abort tree
  case h_2 =>
    dsimp only
    split
    case h_1 published _ hrename =>
      obtain ⟨hmovable, rfl⟩ := FileTree.rename_spec hrename
      have hsource : (sink.unlinkFinal unlink tree).find sink.partPath = some (.file content) := by
        rw [find_unlinkFinal hne, hpart]
      exact hcleared.trans (.of_rename hmovable hsource (.inr rfl) (.inl rfl))
    case h_2 => exact hcleared.trans (abort_grows sink abort _)

theorem commit_complete (hpart : tree.find sink.partPath = some (.file content))
    (hne : sink.partPath ≠ sink.finalPath)
    (hcommitted : (sink.commit flush unlink rename abort tree).1) :
    (sink.commit flush unlink rename abort tree).2.find sink.finalPath = some (.file content) := by
  unfold commit at hcommitted ⊢
  split at hcommitted
  case h_1 => cases hcommitted
  case h_2 =>
    dsimp only at hcommitted ⊢
    split at hcommitted
    case h_1 published _ hrename =>
      obtain ⟨hmovable, rfl⟩ := FileTree.rename_spec hrename
      rw [hmovable.find_rename_target, find_unlinkFinal hne, hpart]
    case h_2 => cases hcommitted

theorem commit_calm (hpart : tree.find (partOf path) = some (.file content)) (hpath : path ≠ [])
    (hdir : tree.IsDir path.dropLast) (htarget : tree.find path ≠ some .dir) (abort : Fate) :
    (FileSink.commit ⟨path, partOf path⟩ {} {} {} abort tree).1 := by
  have hne : partOf path ≠ path := partOf_ne hpath
  have hfound (other : List Bytes) (hother : other ≠ path) :
      (FileSink.unlinkFinal ⟨path, partOf path⟩ {} tree).find other = tree.find other :=
    find_unlinkFinal hother
  have hfree : (FileSink.unlinkFinal ⟨path, partOf path⟩ {} tree).find path = none := by
    simp only [unlinkFinal]
    cases hleft : tree.unlink path with
    | some left =>
      obtain ⟨-, hfind⟩ := FileTree.unlink_spec hleft
      exact (hfind path).trans (if_pos rfl)
    | none =>
      rw [FileTree.unlink] at hleft
      split_ifs at hleft with hread
      rw [getD_none]
      cases hfind : tree.find path with
      | none => rfl
      | some node =>
        cases node with
        | dir => exact absurd hfind htarget
        | file old =>
          exact absurd (isSome_iff_exists.mpr ⟨old, FileTree.read_eq_some_iff.mpr hfind⟩) hread
  have hparent : (FileSink.unlinkFinal ⟨path, partOf path⟩ {} tree).IsDir path.dropLast := by
    refine hdir.imp_right fun hfind ↦ (hfound _ fun hsame ↦ ?_).trans hfind
    have hlength := congrArg List.length hsame
    have hpos := length_pos_iff.mpr hpath
    rw [length_dropLast] at hlength
    omega
  have hbeside : ¬partOf path <+: path := by
    intro hbelow
    refine hne (hbelow.eq_of_length ?_)
    rw [← dropLast_append_getLast hpath, partOf_concat, length_append, length_append]
    rfl
  have hsource : (FileSink.unlinkFinal ⟨path, partOf path⟩ {} tree).find (partOf path) ≠ none := by
    rw [hfound _ hne, hpart]
    exact some_ne_none _
  have hrename :
      ((FileSink.unlinkFinal ⟨path, partOf path⟩ {} tree).rename (partOf path) path).isSome = true := by
    rw [FileTree.rename, dif_pos ⟨hsource, hfree, hpath, hparent, hbeside⟩]
    rfl
  obtain ⟨published, hpublished⟩ := isSome_iff_exists.mp hrename
  simp only [commit, hpublished]

end FileSink

def FileManager.createWriter (fate : Fate) (tree : Tree) (path : Bytes) :
    Except Failure (FileSink × Tree) :=
  within fate path fun names ↦
    if names = [] then .error ⟨.invalidPath, none⟩
    else if tree.find names = some .dir then .error ⟨.alreadyExists, none⟩
    else
      match FileSink.create tree names with
      | none => .error ⟨.ioError, some (ascii "No such file or directory")⟩
      | some opened => .ok opened

theorem FileManager.createWriter_eq_ok {fate : Fate} {tree opened : Tree} {path : Bytes} {sink : FileSink}
    (hok : createWriter fate tree path = .ok (sink, opened)) :
    ∃ names, absolute path = some names ∧ names ≠ [] ∧ FileSink.create tree names = some (sink, opened) := by
  obtain ⟨names, habs, hcreate⟩ := within_eq_ok hok
  split_ifs at hcreate with hroot
  split at hcreate
  case h_1 => cases hcreate
  case h_2 same hopened =>
    cases hcreate
    exact ⟨names, habs, hroot, hopened⟩

end DhcpServer.Files
