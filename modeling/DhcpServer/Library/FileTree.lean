import Mathlib.Data.List.Induction
import Mathlib.Data.List.Nodup

/-!
# File trees

A tree of files and directories as the list of its entries, each under its path from the root; the
root itself is no entry. A tree carries the proof that no path has two entries and that every entry
lies in a directory. `find` says what is under a path, and every operation comes with the lemma that
says what `find` answers after it.
-/

namespace DhcpServer.Library

open List Option

variable {Name Content : Type*}

inductive Node (Content : Type*)
  | file (content : Content)
  | dir
deriving DecidableEq

structure FileTree (Name Content : Type*) where
  entries : List (List Name × Node Content)
  nodup : (entries.map Prod.fst).Nodup
  root : ∀ node, ([], node) ∉ entries
  /-- every entry lies in the root or in a directory -/
  parent : ∀ path name node, (path ++ [name], node) ∈ entries → path = [] ∨ (path, .dir) ∈ entries

namespace FileTree

theorem eq_of_mem {tree : FileTree Name Content} {path : List Name} {node same : Node Content}
    (hnode : (path, node) ∈ tree.entries) (hsame : (path, same) ∈ tree.entries) : node = same :=
  congrArg Prod.snd (inj_on_of_nodup_map tree.nodup hnode hsame rfl)

variable [DecidableEq Name] {tree : FileTree Name Content} {path rest other dir source target : List Name}
  {name : Name} {node : Node Content} {content : Content}

def empty : FileTree Name Content := ⟨[], by simp, by simp, by simp⟩

def find (tree : FileTree Name Content) (path : List Name) : Option (Node Content) :=
  (tree.entries.find? fun entry ↦ entry.1 = path).map Prod.snd

theorem find_eq_some_iff : tree.find path = some node ↔ (path, node) ∈ tree.entries := by
  rw [find, map_eq_some_iff]
  constructor
  · rintro ⟨⟨same, node⟩, hfind, rfl⟩
    have hsame : same = path := by simpa using find?_some hfind
    exact hsame ▸ mem_of_find?_eq_some hfind
  · intro hmem
    cases hfind : tree.entries.find? fun entry ↦ entry.1 = path with
    | none =>
      have hnone := find?_eq_none.mp hfind _ hmem
      simp at hnone
    | some entry =>
      have hpath : entry.1 = path := by simpa using find?_some hfind
      have hentry : (path, entry.2) ∈ tree.entries := hpath ▸ mem_of_find?_eq_some hfind
      exact ⟨entry, rfl, eq_of_mem hentry hmem⟩

theorem find_nil : tree.find [] = none := by
  rw [eq_none_iff_forall_ne_some]
  exact fun node hnode ↦ tree.root node (find_eq_some_iff.mp hnode)

theorem find_parent (hfind : tree.find (path ++ [name]) = some node) :
    path = [] ∨ tree.find path = some .dir := by
  rw [find_eq_some_iff]
  exact tree.parent path name node (find_eq_some_iff.mp hfind)

/-- There is something under a path only if there is a directory under everything before it. -/
theorem find_dir_of_append (hpath : path ≠ []) (hrest : rest ≠ [])
    (hfind : tree.find (path ++ rest) = some node) : tree.find path = some .dir := by
  induction rest using reverseRecOn generalizing node with
  | nil => exact absurd rfl hrest
  | append_singleton rest name ih =>
    rw [← append_assoc] at hfind
    have hparent := (find_parent hfind).resolve_left (by simp [hpath])
    by_cases hnil : rest = []
    · rwa [hnil, append_nil] at hparent
    · exact ih hnil hparent

theorem find_append_eq_none (hpath : path ≠ []) (hnone : tree.find path = none) :
    tree.find (path ++ rest) = none := by
  by_cases hrest : rest = []
  · rwa [hrest, append_nil]
  · rw [eq_none_iff_forall_ne_some]
    intro node hnode
    rw [find_dir_of_append hpath hrest hnode] at hnone
    cases hnone

theorem eq_of_file_below (hsource : tree.find source = some (.file content))
    (hother : tree.find other = some node) (hbelow : source <+: other) : other = source := by
  obtain ⟨rest, rfl⟩ := hbelow
  by_cases hrest : rest = []
  · rw [hrest, append_nil]
  · have hroot : source ≠ [] := by
      rintro rfl
      rw [find_nil] at hsource
      cases hsource
    rw [find_dir_of_append hroot hrest hother] at hsource
    cases hsource

def read (tree : FileTree Name Content) (path : List Name) : Option Content :=
  match tree.find path with
  | some (.file content) => some content
  | _ => none

theorem read_eq_some_iff : tree.read path = some content ↔ tree.find path = some (.file content) := by
  rw [read]
  split
  case h_1 same hfind => simp [hfind]
  case h_2 hother =>
    constructor
    · rintro ⟨⟩
    · exact fun hfile ↦ absurd hfile (hother content)

theorem find_ne_dir_of_read (hread : tree.read path = some content) : tree.find path ≠ some .dir := by
  rw [read_eq_some_iff.mp hread]
  rintro ⟨⟩

def IsDir (tree : FileTree Name Content) (path : List Name) : Prop := path = [] ∨ tree.find path = some .dir

instance [DecidableEq Content] (tree : FileTree Name Content) (path : List Name) :
    Decidable (tree.IsDir path) :=
  inferInstanceAs (Decidable (_ ∨ _))

/-- The names in a directory, in the order of the entries. -/
def children (tree : FileTree Name Content) (dir : List Name) : List (Name × Node Content) :=
  tree.entries.filterMap fun entry ↦
    if entry.1.dropLast = dir then entry.1.getLast?.map fun name ↦ (name, entry.2) else none

theorem child_eq_some_iff {entry : List Name × Node Content} :
    (if entry.1.dropLast = dir then entry.1.getLast?.map fun name ↦ (name, entry.2) else none) =
      some (name, node) ↔ entry = (dir ++ [name], node) := by
  obtain ⟨path, same⟩ := entry
  cases path using reverseRecOn with
  | nil => simp
  | append_singleton before last =>
    simp only [dropLast_concat, getLast?_concat, map_some]
    constructor
    · intro hsome
      split_ifs at hsome with hdir
      cases hsome
      rw [hdir]
    · intro hentry
      obtain ⟨hpath, rfl⟩ := Prod.mk.inj hentry
      obtain ⟨rfl, hlast⟩ := append_inj' hpath rfl
      simp [singleton_inj.mp hlast]

theorem mem_children : (name, node) ∈ tree.children dir ↔ tree.find (dir ++ [name]) = some node := by
  rw [children, mem_filterMap, find_eq_some_iff]
  constructor
  · rintro ⟨entry, hentry, hchild⟩
    rwa [← child_eq_some_iff.mp hchild]
  · intro hentry
    exact ⟨_, hentry, child_eq_some_iff.mpr rfl⟩

theorem nodup_children (tree : FileTree Name Content) (dir : List Name) :
    ((tree.children dir).map Prod.fst).Nodup := by
  rw [children, List.Nodup, pairwise_map, pairwise_filterMap]
  refine (pairwise_map.mp tree.nodup).imp ?_
  intro entry same hne child hchild other hother hname
  have hentry := child_eq_some_iff.mp (show _ = some (child.1, child.2) from hchild)
  have hsame := child_eq_some_iff.mp (show _ = some (other.1, other.2) from hother)
  exact hne (by rw [hentry, hsame, hname])

/-- Only some of the entries are left. Where a directory goes, so does what is in it. -/
def keep (tree : FileTree Name Content) (kept : List Name → Bool)
    (hclosed : ∀ path name node, (path ++ [name], node) ∈ tree.entries →
      kept (path ++ [name]) = true → kept path = true) : FileTree Name Content where
  entries := tree.entries.filter fun entry ↦ kept entry.1
  nodup := tree.nodup.sublist (filter_sublist.map Prod.fst)
  root node hmem := tree.root node (mem_of_mem_filter hmem)
  parent path name node hmem := by
    obtain ⟨hmem, hkept⟩ := mem_filter.mp hmem
    refine (tree.parent path name node hmem).imp_right fun hdir ↦ mem_filter.mpr ⟨hdir, ?_⟩
    exact hclosed path name node hmem hkept

theorem find_keep {kept : List Name → Bool}
    {hclosed : ∀ path name node, (path ++ [name], node) ∈ tree.entries →
      kept (path ++ [name]) = true → kept path = true} :
    (tree.keep kept hclosed).find path = if kept path then tree.find path else none := by
  apply Option.ext
  intro node
  rw [find_eq_some_iff, keep, mem_filter, ← find_eq_some_iff]
  split_ifs with hkept <;> simp [hkept]

def add (tree : FileTree Name Content) (path : List Name) (node : Node Content)
    (hpath : path ≠ []) (hdir : tree.IsDir path.dropLast) (hnone : tree.find path = none) :
    FileTree Name Content where
  entries := tree.entries ++ [(path, node)]
  nodup := by
    rw [map_append, nodup_append']
    refine ⟨tree.nodup, by simp, ?_⟩
    rw [disjoint_right]
    intro same hsame hmem
    obtain rfl : same = path := by simpa using hsame
    obtain ⟨entry, hentry, rfl⟩ := List.mem_map.mp hmem
    rw [find_eq_some_iff.mpr (show (entry.1, entry.2) ∈ tree.entries from hentry)] at hnone
    cases hnone
  root node hmem := by
    rcases mem_append.mp hmem with hold | hnew
    · exact tree.root node hold
    · exact hpath (Prod.mk.inj (mem_singleton.mp hnew)).1.symm
  parent before name node hmem := by
    rcases mem_append.mp hmem with hold | hnew
    · exact (tree.parent before name node hold).imp_right (mem_append_left _)
    · obtain ⟨rfl, -⟩ := Prod.mk.inj (mem_singleton.mp hnew)
      rw [IsDir, dropLast_concat, find_eq_some_iff] at hdir
      exact hdir.imp_right (mem_append_left _)

theorem find_add {hpath : path ≠ []} {hdir : tree.IsDir path.dropLast}
    {hnone : tree.find path = none} :
    (tree.add path node hpath hdir hnone).find other =
      if other = path then some node else tree.find other := by
  apply Option.ext
  intro same
  rw [find_eq_some_iff, add, mem_append, mem_singleton, ← find_eq_some_iff]
  split_ifs with hother
  · subst hother
    simp [hnone, eq_comm]
  · simp [hother]

/-! ## Moving -/

/-- Where a path is after what is at and below the source has moved to the target. -/
def relocate (source target path : List Name) : List Name :=
  if source <+: path then target ++ path.drop source.length else path

theorem relocate_append (source target rest : List Name) :
    relocate source target (source ++ rest) = target ++ rest := by
  simp [relocate]

theorem relocate_outside (houtside : ¬source <+: path) :
    relocate source target path = path := if_neg houtside

structure Movable (tree : FileTree Name Content) (source target : List Name) : Prop where
  source_ne : tree.find source ≠ none
  target_free : tree.find target = none
  target_ne : target ≠ []
  target_parent : tree.IsDir target.dropLast
  not_inside : ¬source <+: target

namespace Movable

variable {left right : List Name}

section

variable (hmovable : tree.Movable source target)
include hmovable

theorem below_target (hbelow : target <+: path) : tree.find path = none := by
  obtain ⟨rest, rfl⟩ := hbelow
  exact find_append_eq_none hmovable.target_ne hmovable.target_free

theorem relocate_inj (hleft : tree.find left ≠ none)
    (hright : tree.find right ≠ none)
    (hsame : relocate source target left = relocate source target right) : left = right := by
  have hmixed {moved stays : List Name} (hstays : tree.find stays ≠ none)
      (heq : target ++ moved = stays) : False :=
    hstays (hmovable.below_target ⟨moved, heq⟩)
  by_cases hl : source <+: left
  · obtain ⟨moved, rfl⟩ := hl
    by_cases hr : source <+: right
    · obtain ⟨rest, rfl⟩ := hr
      rw [relocate_append, relocate_append] at hsame
      rw [append_cancel_left hsame]
    · rw [relocate_append, relocate_outside hr] at hsame
      exact (hmixed hright hsame).elim
  · by_cases hr : source <+: right
    · obtain ⟨rest, rfl⟩ := hr
      rw [relocate_append, relocate_outside hl] at hsame
      exact (hmixed hleft hsame.symm).elim
    · rwa [relocate_outside hl, relocate_outside hr] at hsame

theorem relocate_dropLast : relocate source target target.dropLast = target.dropLast :=
  relocate_outside fun hinside ↦
    hmovable.not_inside <| hinside.trans <| dropLast_prefix target

theorem parent {before : List Name}
    (hmem : (before ++ [name], node) ∈
      tree.entries.map fun entry ↦ (relocate source target entry.1, entry.2)) :
    before = [] ∨ (before, .dir) ∈
      tree.entries.map fun entry ↦ (relocate source target entry.1, entry.2) := by
  have hdir {place moved : List Name} (hplace : place = [] ∨ (place, .dir) ∈ tree.entries)
      (hmoved : relocate source target place = moved) (hroot : place = [] → moved = []) :
      moved = [] ∨ (moved, .dir) ∈
        tree.entries.map fun entry ↦ (relocate source target entry.1, entry.2) :=
    hplace.imp hroot fun hentry ↦ List.mem_map.mpr ⟨_, hentry, by rw [hmoved]⟩
  obtain ⟨entry, hentry, hnew⟩ := List.mem_map.mp hmem
  obtain ⟨hpath, hnode⟩ := Prod.mk.inj hnew
  by_cases hinside : source <+: entry.1
  · obtain ⟨rest, hrest⟩ := hinside
    rw [← hrest, relocate_append] at hpath
    cases rest using reverseRecOn with
    | nil =>
      have hbefore : target.dropLast = before := by
        rw [append_nil] at hpath
        rw [hpath, dropLast_concat]
      have hparent := hmovable.target_parent
      rw [IsDir, find_eq_some_iff, hbefore] at hparent
      exact hdir hparent (hbefore ▸ hmovable.relocate_dropLast) id
    | append_singleton rest last =>
      rw [← append_assoc] at hpath hrest
      obtain ⟨rfl, hlast⟩ := append_inj' hpath rfl
      have hold : (source ++ rest ++ [last], entry.2) ∈ tree.entries := hrest ▸ hentry
      refine hdir (tree.parent _ _ _ hold) (relocate_append source target rest) fun hnil ↦ ?_
      obtain ⟨rfl, -⟩ := append_eq_nil_iff.mp hnil
      exact absurd nil_prefix hmovable.not_inside
  · rw [relocate_outside hinside] at hpath
    have hold : (before ++ [name], entry.2) ∈ tree.entries := hpath ▸ hentry
    refine hdir (tree.parent _ _ _ hold) (relocate_outside fun hbefore ↦ hinside ?_) id
    rw [hpath]
    exact hbefore.trans (prefix_append _ _)

end

/-- Everything at and below the source moves to the target. -/
def rename (hmovable : tree.Movable source target) : FileTree Name Content where
  entries := tree.entries.map fun entry ↦ (relocate source target entry.1, entry.2)
  nodup := by
    rw [List.map_map]
    refine List.Nodup.map_on ?_ tree.nodup.of_map
    intro left hleft right hright hsame
    have hfound {entry : List Name × Node Content} (hentry : entry ∈ tree.entries) :
        tree.find entry.1 ≠ none := by
      rw [find_eq_some_iff.mpr (show (entry.1, entry.2) ∈ tree.entries from hentry)]
      rintro ⟨⟩
    have hpath := hmovable.relocate_inj (hfound hleft) (hfound hright) hsame
    exact inj_on_of_nodup_map tree.nodup hleft hright hpath
  root node hmem := by
    obtain ⟨entry, hentry, hnew⟩ := List.mem_map.mp hmem
    have hpath : relocate source target entry.1 = [] := (Prod.mk.inj hnew).1
    unfold relocate at hpath
    split_ifs at hpath
    · exact hmovable.target_ne (append_eq_nil_iff.mp hpath).1
    · exact tree.root entry.2 (hpath ▸ hentry)
  parent _ _ _ hmem := hmovable.parent hmem

section

variable (hmovable : tree.Movable source target)
include hmovable

theorem find_rename : hmovable.rename.find (target ++ rest) = tree.find (source ++ rest) := by
  apply Option.ext
  intro node
  rw [find_eq_some_iff, find_eq_some_iff, rename, List.mem_map]
  constructor
  · rintro ⟨entry, hentry, hnew⟩
    obtain ⟨hpath, rfl⟩ := Prod.mk.inj hnew
    by_cases hinside : source <+: entry.1
    · obtain ⟨moved, hmoved⟩ := hinside
      rw [← hmoved, relocate_append] at hpath
      rw [← append_cancel_left hpath, hmoved]
      exact hentry
    · rw [relocate_outside hinside] at hpath
      have hnone := hmovable.below_target ⟨rest, hpath.symm⟩
      rw [find_eq_some_iff.mpr (show (entry.1, entry.2) ∈ tree.entries from hentry)] at hnone
      cases hnone
  · exact fun hentry ↦ ⟨_, hentry, by rw [relocate_append]⟩

theorem find_rename_target : hmovable.rename.find target = tree.find source := by
  have hmoved : hmovable.rename.find (target ++ []) = tree.find (source ++ []) := hmovable.find_rename
  rwa [append_nil, append_nil] at hmoved

theorem find_rename_outside (hsource : ¬source <+: path) (htarget : ¬target <+: path) :
    hmovable.rename.find path = tree.find path := by
  apply Option.ext
  intro node
  rw [find_eq_some_iff, find_eq_some_iff, rename, List.mem_map]
  constructor
  · rintro ⟨entry, hentry, hnew⟩
    obtain ⟨hpath, rfl⟩ := Prod.mk.inj hnew
    by_cases hinside : source <+: entry.1
    · obtain ⟨moved, hmoved⟩ := hinside
      rw [← hmoved, relocate_append] at hpath
      exact absurd ⟨moved, hpath⟩ htarget
    · rw [relocate_outside hinside] at hpath
      exact hpath ▸ hentry
  · exact fun hentry ↦ ⟨_, hentry, by rw [relocate_outside hsource]⟩

theorem find_rename_of_source (hsource : source <+: path)
    (htarget : ¬target <+: path) : hmovable.rename.find path = none := by
  rw [eq_none_iff_forall_ne_some]
  intro node hnode
  rw [find_eq_some_iff, rename, List.mem_map] at hnode
  obtain ⟨entry, hentry, hnew⟩ := hnode
  obtain ⟨hpath, rfl⟩ := Prod.mk.inj hnew
  by_cases hinside : source <+: entry.1
  · obtain ⟨moved, hmoved⟩ := hinside
    rw [← hmoved, relocate_append] at hpath
    exact htarget ⟨moved, hpath⟩
  · rw [relocate_outside hinside] at hpath
    exact hinside (hpath ▸ hsource)

end

end Movable

def unlink (tree : FileTree Name Content) (path : List Name) : Option (FileTree Name Content) :=
  if h : (tree.read path).isSome then
    some (tree.keep (fun other ↦ other ≠ path) (by
      intro before name node hmem _
      obtain ⟨content, hread⟩ := isSome_iff_exists.mp h
      rw [decide_eq_true_eq]
      rintro rfl
      rcases tree.parent before name node hmem with rfl | hdir
      · simp [read, find_nil] at hread
      · exact find_ne_dir_of_read hread (find_eq_some_iff.mpr hdir)))
  else none

theorem unlink_spec {left : FileTree Name Content} (hleft : tree.unlink path = some left) :
    (∃ content, tree.find path = some (.file content)) ∧
      ∀ other, left.find other = if other = path then none else tree.find other := by
  rw [unlink] at hleft
  split_ifs at hleft with h
  cases hleft
  obtain ⟨content, hread⟩ := isSome_iff_exists.mp h
  refine ⟨⟨content, read_eq_some_iff.mp hread⟩, fun other ↦ ?_⟩
  rw [find_keep]
  by_cases hother : other = path <;> simp [hother]

def replace (tree : FileTree Name Content) (path : List Name) (content : Content)
    (hfile : (tree.read path).isSome) : FileTree Name Content where
  entries := tree.entries.map fun entry ↦ if entry.1 = path then (path, .file content) else entry
  nodup := by
    have hpaths : (fun entry : List Name × Node Content ↦
        (if entry.1 = path then (path, .file content) else entry).1) = Prod.fst := by
      funext entry
      split_ifs with hentry
      · exact hentry.symm
      · rfl
    rw [List.map_map, Function.comp_def, hpaths]
    exact tree.nodup
  root node hmem := by
    obtain ⟨entry, hentry, hnode⟩ := List.mem_map.mp hmem
    have hroot : entry.1 ≠ [] := fun hnil ↦ tree.root entry.2 (hnil ▸ hentry)
    split_ifs at hnode with hpath
    · exact hroot (hpath.trans (Prod.mk.inj hnode).1)
    · exact hroot (congrArg Prod.fst hnode)
  parent before name node hmem := by
    obtain ⟨entry, hentry, hnode⟩ := List.mem_map.mp hmem
    have hpath : entry.1 = before ++ [name] := by
      split_ifs at hnode with hpath
      · exact hpath.trans (Prod.mk.inj hnode).1
      · exact congrArg Prod.fst hnode
    have hold : (before ++ [name], entry.2) ∈ tree.entries := hpath ▸ hentry
    refine (tree.parent before name entry.2 hold).imp_right fun hdir ↦ ?_
    refine List.mem_map.mpr ⟨_, hdir, if_neg ?_⟩
    rintro rfl
    obtain ⟨old, hread⟩ := isSome_iff_exists.mp hfile
    exact find_ne_dir_of_read hread (find_eq_some_iff.mpr hdir)

theorem find_replace {hfile : (tree.read path).isSome} : (tree.replace path content hfile).find other =
      if other = path then some (.file content) else tree.find other := by
  obtain ⟨old, hread⟩ := isSome_iff_exists.mp hfile
  have hold := find_eq_some_iff.mp (read_eq_some_iff.mp hread)
  apply Option.ext
  intro node
  rw [find_eq_some_iff, replace, List.mem_map]
  split_ifs with hother
  · subst hother
    constructor
    · rintro ⟨entry, hentry, hnode⟩
      split_ifs at hnode with hpath
      · exact congrArg some (Prod.mk.inj hnode).2
      · exact absurd (congrArg Prod.fst hnode) hpath
    · rintro ⟨rfl⟩
      exact ⟨_, hold, if_pos rfl⟩
  · rw [find_eq_some_iff]
    constructor
    · rintro ⟨entry, hentry, hnode⟩
      split_ifs at hnode with hpath
      · exact absurd (Prod.mk.inj hnode).1.symm hother
      · exact hnode ▸ hentry
    · exact fun hentry ↦ ⟨_, hentry, if_neg hother⟩

/-- What is at and below the path goes, except where an entry sticks, and what a stuck entry lies
in. -/
def removeTree (tree : FileTree Name Content) (path : List Name) (sticks : List Name → Bool) :
    FileTree Name Content :=
  tree.keep
    (fun other ↦ !path.isPrefixOf other ||
      tree.entries.any fun entry ↦ other.isPrefixOf entry.1 && sticks entry.1)
    (by
      intro before name node _ hkept
      simp only [Bool.or_eq_true, Bool.not_eq_true', List.any_eq_true, Bool.and_eq_true,
        isPrefixOf_iff_prefix, ← Bool.not_eq_true] at hkept ⊢
      rcases hkept with houtside | ⟨entry, hentry, hbelow, hsticks⟩
      · exact .inl fun hinside ↦ houtside (hinside.trans (prefix_append _ _))
      · exact .inr ⟨entry, hentry, (prefix_append _ _).trans hbelow, hsticks⟩)

theorem find_removeTree_outside {sticks : List Name → Bool} (houtside : ¬path <+: other) :
    (tree.removeTree path sticks).find other = tree.find other := by
  rw [removeTree, find_keep, if_pos]
  rw [← isPrefixOf_iff_prefix, Bool.not_eq_true] at houtside
  simp [houtside]

theorem find_of_find_removeTree {sticks : List Name → Bool}
    (hfind : (tree.removeTree path sticks).find other = some node) : tree.find other = some node := by
  rw [removeTree, find_keep] at hfind
  split_ifs at hfind
  exact hfind

section Calls

variable [DecidableEq Content]

def mkdir (tree : FileTree Name Content) (path : List Name) : Option (FileTree Name Content) :=
  if h : path ≠ [] ∧ tree.IsDir path.dropLast ∧ tree.find path = none then
    some (tree.add path .dir h.1 h.2.1 h.2.2)
  else none

def write (tree : FileTree Name Content) (path : List Name) (content : Content) :
    Option (FileTree Name Content) :=
  if hfile : (tree.read path).isSome then some (tree.replace path content hfile)
  else if h : path ≠ [] ∧ tree.IsDir path.dropLast ∧ tree.find path = none then
    some (tree.add path (.file content) h.1 h.2.1 h.2.2)
  else none

/-- Everything at and below the source moves to the target, which is free. -/
def rename (tree : FileTree Name Content) (source target : List Name) : Option (FileTree Name Content) :=
  if h : tree.find source ≠ none ∧ tree.find target = none ∧ target ≠ [] ∧
      tree.IsDir target.dropLast ∧ ¬source <+: target then
    some (Movable.rename ⟨h.1, h.2.1, h.2.2.1, h.2.2.2.1, h.2.2.2.2⟩)
  else none

theorem mkdir_spec {made : FileTree Name Content} (hmade : tree.mkdir path = some made) :
    path ≠ [] ∧ tree.IsDir path.dropLast ∧ tree.find path = none ∧
      ∀ other, made.find other = if other = path then some .dir else tree.find other := by
  rw [mkdir] at hmade
  split_ifs at hmade with h
  cases hmade
  exact ⟨h.1, h.2.1, h.2.2, fun _ ↦ find_add⟩

theorem write_spec {written : FileTree Name Content} (hwritten : tree.write path content = some written) :
    tree.find path ≠ some .dir ∧
      ∀ other, written.find other = if other = path then some (.file content) else tree.find other := by
  rw [write] at hwritten
  split_ifs at hwritten with hfile h
  · cases hwritten
    obtain ⟨old, hread⟩ := isSome_iff_exists.mp hfile
    exact ⟨find_ne_dir_of_read hread, fun _ ↦ find_replace⟩
  · cases hwritten
    exact ⟨by simp [h.2.2], fun _ ↦ find_add⟩

theorem exists_write (hpath : path ≠ []) (hdir : tree.IsDir path.dropLast)
    (hfree : tree.find path ≠ some .dir) (content : Content) :
    ∃ written, tree.write path content = some written := by
  rw [write]
  by_cases hfile : (tree.read path).isSome
  · exact ⟨_, dif_pos hfile⟩
  · have hnone : tree.find path = none := by
      cases hfind : tree.find path with
      | none => rfl
      | some node =>
        cases node with
        | dir => exact absurd hfind hfree
        | file old => exact absurd (isSome_iff_exists.mpr ⟨old, read_eq_some_iff.mpr hfind⟩) hfile
    rw [dif_neg hfile, dif_pos ⟨hpath, hdir, hnone⟩]
    exact ⟨_, rfl⟩

theorem write_eq_none (htaken : tree.find path = some .dir) (content : Content) :
    tree.write path content = none := by
  cases hwritten : tree.write path content with
  | none => rfl
  | some written => exact absurd htaken (write_spec hwritten).1

theorem rename_spec {moved : FileTree Name Content} (hmoved : tree.rename source target = some moved) :
    ∃ hmovable : tree.Movable source target, moved = hmovable.rename := by
  rw [rename] at hmoved
  split_ifs at hmoved with h
  exact ⟨_, (Option.some.inj hmoved).symm⟩

end Calls

/-! ## Growth -/

/-- The directories stay, new ones are where directories are made, and the files that are not touched
are the same. -/
structure Grows (touched made : List Name → Prop) (tree grown : FileTree Name Content) : Prop where
  dirs : ∀ path, tree.find path = some .dir → grown.find path = some .dir
  fresh : ∀ path, grown.find path = some .dir → tree.find path = some .dir ∨ made path
  files : ∀ path content, ¬touched path →
    (grown.find path = some (.file content) ↔ tree.find path = some (.file content))

namespace Grows

variable {touched made wider more : List Name → Prop} {grown later : FileTree Name Content}

theorem refl (touched made : List Name → Prop) (tree : FileTree Name Content) :
    Grows touched made tree tree :=
  ⟨fun _ hdir ↦ hdir, fun _ hdir ↦ .inl hdir, fun _ _ _ ↦ Iff.rfl⟩

section

variable (hgrown : Grows touched made tree grown)
include hgrown

theorem trans (hlater : Grows touched made grown later) : Grows touched made tree later where
  dirs path hdir := hlater.dirs path (hgrown.dirs path hdir)
  fresh path hdir := (hlater.fresh path hdir).elim (hgrown.fresh path) .inr
  files path content houtside :=
    (hlater.files path content houtside).trans (hgrown.files path content houtside)

theorem mono (hwider : ∀ path, touched path → wider path)
    (hmore : ∀ path, made path → more path) : Grows wider more tree grown where
  dirs := hgrown.dirs
  fresh path hdir := (hgrown.fresh path hdir).imp_right (hmore path)
  files path content houtside := hgrown.files path content fun hpath ↦ houtside (hwider path hpath)

theorem find_eq_none (hnone : tree.find path = none)
    (htouched : ¬touched path) (hmade : ¬made path) : grown.find path = none := by
  rw [eq_none_iff_forall_ne_some]
  rintro (content | _) hfind
  · rw [hgrown.files path content htouched, hnone] at hfind
    cases hfind
  · rcases hgrown.fresh path hfind with hold | hnew
    · rw [hnone] at hold
      cases hold
    · exact hmade hnew

theorem find_ne_none (htaken : tree.find path ≠ none)
    (htouched : ¬touched path) : grown.find path ≠ none := by
  obtain ⟨node, hnode⟩ := ne_none_iff_exists'.mp htaken
  rw [ne_none_iff_exists']
  cases node with
  | file content => exact ⟨_, (hgrown.files path content htouched).mpr hnode⟩
  | dir => exact ⟨_, hgrown.dirs path hnode⟩

end

theorem of_one {after : Option (Node Content)} (hpath : tree.find path ≠ some .dir)
    (hmade : after = some .dir → made path)
    (hafter : touched path ∨ ∀ content, after ≠ some (.file content) ∧
      tree.find path ≠ some (.file content))
    (hfind : ∀ other, grown.find other = if other = path then after else tree.find other) :
    Grows touched made tree grown := by
  refine ⟨fun other hdir ↦ ?_, fun other hdir ↦ ?_, fun other content houtside ↦ ?_⟩
  · rw [hfind, if_neg, hdir]
    rintro rfl
    exact hpath hdir
  · rw [hfind] at hdir
    split_ifs at hdir with hother
    · exact .inr (hother ▸ hmade hdir)
    · exact .inl hdir
  · by_cases hother : other = path
    · subst hother
      obtain ⟨hnew, hold⟩ := hafter.resolve_left houtside content
      rw [hfind, if_pos rfl]
      exact iff_of_false hnew hold
    · rw [hfind, if_neg hother]

theorem of_mkdir [DecidableEq Content] {bigger : FileTree Name Content}
    (hbigger : tree.mkdir path = some bigger) (hmade : made path) : Grows touched made tree bigger := by
  obtain ⟨-, -, hnone, hfind⟩ := mkdir_spec hbigger
  exact of_one (by simp [hnone]) (fun _ ↦ hmade) (.inr fun content ↦ by simp [hnone]) hfind

theorem of_write [DecidableEq Content] {written : FileTree Name Content}
    (hwritten : tree.write path content = some written) (hpath : touched path) :
    Grows touched made tree written := by
  obtain ⟨hnot, hfind⟩ := write_spec hwritten
  exact of_one hnot (by rintro ⟨⟩) (.inl hpath) hfind

theorem of_unlink {left : FileTree Name Content} (hleft : tree.unlink path = some left)
    (hpath : touched path) : Grows touched made tree left := by
  obtain ⟨⟨old, hold⟩, hfind⟩ := unlink_spec hleft
  exact of_one (by simp [hold]) (by rintro ⟨⟩) (.inl hpath) hfind

theorem of_rename (hmovable : tree.Movable source target)
    (hsource : tree.find source = some (.file content)) (htouched : touched source)
    (htarget : touched target) : Grows touched made tree hmovable.rename := by
  have hold {other : List Name} {node : Node Content} (hne : other ≠ source)
      (hother : tree.find other = some node) : hmovable.rename.find other = some node := by
    rw [hmovable.find_rename_outside, hother]
    · exact fun hbelow ↦ hne (eq_of_file_below hsource hother hbelow)
    · intro hbelow
      rw [hmovable.below_target hbelow] at hother
      cases hother
  have hmoved := hmovable.find_rename_target.trans hsource
  have hnew {other : List Name} {node : Node Content} (hne : other ≠ target)
      (hother : hmovable.rename.find other = some node) : tree.find other = some node := by
    have hbelow : ¬target <+: other := fun hbelow ↦ hne (eq_of_file_below hmoved hother hbelow)
    by_cases hinside : source <+: other
    · rw [hmovable.find_rename_of_source hinside hbelow] at hother
      cases hother
    · rwa [hmovable.find_rename_outside hinside hbelow] at hother
  refine ⟨fun other hdir ↦ hold ?_ hdir, fun other hdir ↦ .inl (hnew ?_ hdir),
    fun other same houtside ↦ ⟨hnew ?_, hold ?_⟩⟩
  · rintro rfl
    rw [hsource] at hdir
    cases hdir
  · rintro rfl
    rw [hmoved] at hdir
    cases hdir
  · rintro rfl
    exact houtside htarget
  · rintro rfl
    exact houtside htouched

end Grows

end FileTree

end DhcpServer.Library
