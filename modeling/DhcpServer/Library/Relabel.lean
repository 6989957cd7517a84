import DhcpServer.Library.FileTree

/-!
# Trees with other contents

A change of the content of every file leaves the names and the directories as they are. No operation on a
tree looks at a content: each one answers the same before and after a change, and what it leaves is changed
in the same way. Two trees that are the same after a change stay so under every operation.
-/

namespace DhcpServer.Library

open List Option

variable {Name Content Content' : Type*}

def Node.relabel (change : Content → Content') : Node Content → Node Content'
  | .file content => .file (change content)
  | .dir => .dir

namespace FileTree

theorem eq_of_entries {left right : FileTree Name Content} (hentries : left.entries = right.entries) :
    left = right := by
  cases left
  cases right
  cases hentries
  rfl

theorem mem_relabel {change : Content → Content'} {entries : List (List Name × Node Content)}
    {path : List Name} {node : Node Content'} :
    (path, node) ∈ entries.map (fun entry ↦ (entry.1, entry.2.relabel change)) ↔
      ∃ old, (path, old) ∈ entries ∧ old.relabel change = node := by
  rw [List.mem_map]
  constructor
  · rintro ⟨entry, hentry, hnew⟩
    cases hnew
    exact ⟨entry.2, hentry, rfl⟩
  · rintro ⟨old, hold, rfl⟩
    exact ⟨_, hold, rfl⟩

def relabel (tree : FileTree Name Content) (change : Content → Content') : FileTree Name Content' where
  entries := tree.entries.map fun entry ↦ (entry.1, entry.2.relabel change)
  nodup := by
    rw [List.map_map]
    exact tree.nodup
  root node hmem := by
    obtain ⟨old, hold, -⟩ := mem_relabel.mp hmem
    exact tree.root old hold
  parent path name node hmem := by
    obtain ⟨old, hold, -⟩ := mem_relabel.mp hmem
    exact (tree.parent path name old hold).imp_right fun hdir ↦ mem_relabel.mpr ⟨.dir, hdir, rfl⟩

variable [DecidableEq Name] {tree : FileTree Name Content} {change : Content → Content'}
  {path dir source target : List Name}

theorem find_relabel : (tree.relabel change).find path = (tree.find path).map (Node.relabel change) := by
  rw [find, relabel, find?_map, Option.map_map, find, Option.map_map]
  rfl

theorem read_relabel : (tree.relabel change).read path = (tree.read path).map change := by
  rw [read, find_relabel, read]
  cases tree.find path with
  | none => rfl
  | some node => cases node <;> rfl

theorem find_relabel_eq_none : (tree.relabel change).find path = none ↔ tree.find path = none := by
  rw [find_relabel, map_eq_none_iff]

theorem find_relabel_dir : (tree.relabel change).find path = some .dir ↔ tree.find path = some .dir := by
  rw [find_relabel]
  cases tree.find path with
  | none => simp
  | some node => cases node <;> simp [Node.relabel]

theorem isDir_relabel : (tree.relabel change).IsDir path ↔ tree.IsDir path := by
  rw [IsDir, IsDir, find_relabel_dir]

theorem children_relabel : (tree.relabel change).children dir =
      (tree.children dir).map fun child ↦ (child.1, child.2.relabel change) := by
  rw [children, relabel, filterMap_map, children, map_filterMap]
  congr
  funext entry
  dsimp only [Function.comp]
  split_ifs
  · cases entry.1.getLast? <;> rfl
  · rfl

omit [DecidableEq Name] in
theorem keep_relabel {kept : List Name → Bool} {hclosed hclosed'} :
    (tree.relabel change).keep kept hclosed = (tree.keep kept hclosed').relabel change := by
  apply eq_of_entries
  simp only [keep, relabel, List.filter_map]
  rfl

theorem unlink_relabel :
    (tree.relabel change).unlink path = (tree.unlink path).map fun left ↦ left.relabel change := by
  rw [unlink, unlink]
  have hread : ((tree.relabel change).read path).isSome = (tree.read path).isSome := by
    rw [read_relabel, isSome_map]
  by_cases hfile : (tree.read path).isSome
  · rw [dif_pos hfile, dif_pos (hread.trans hfile)]
    exact congrArg some keep_relabel
  · rw [dif_neg hfile, dif_neg (by rwa [hread])]
    rfl

theorem removeTree_relabel {sticks : List Name → Bool} :
    (tree.relabel change).removeTree path sticks = (tree.removeTree path sticks).relabel change := by
  apply eq_of_entries
  simp only [removeTree, keep, relabel, List.filter_map, List.any_map]
  rfl

theorem replace_relabel {content : Content} {hfile hfile'} :
    (tree.relabel change).replace path (change content) hfile =
      (tree.replace path content hfile').relabel change := by
  apply eq_of_entries
  simp only [replace, relabel, List.map_map]
  congr
  funext entry
  dsimp only [Function.comp]
  split_ifs <;> rfl

theorem add_relabel (node : Node Content) {hpath hdir hnone hdir' hnone'} :
    (tree.relabel change).add path (node.relabel change) hpath hdir hnone =
      (tree.add path node hpath hdir' hnone').relabel change := by
  apply eq_of_entries
  simp only [add, relabel, map_append, map_cons, map_nil]

theorem Movable.rename_relabel {hmovable : (tree.relabel change).Movable source target}
    {hmovable' : tree.Movable source target} :
    hmovable.rename = hmovable'.rename.relabel change := by
  apply eq_of_entries
  simp only [Movable.rename, relabel, List.map_map]
  rfl

section Calls

variable [DecidableEq Content] [DecidableEq Content']

theorem write_of_read {content : Content} (hread : tree.read path = some content) :
    tree.write path content = some tree := by
  have hfile : (tree.read path).isSome := isSome_iff_exists.mpr ⟨content, hread⟩
  rw [write, dif_pos hfile]
  refine congrArg some (eq_of_entries ?_)
  refine (map_congr_left fun entry hentry ↦ ?_).trans (List.map_id _)
  split_ifs with hpath
  · subst hpath
    exact Prod.ext rfl (eq_of_mem (find_eq_some_iff.mp (read_eq_some_iff.mp hread)) hentry)
  · rfl

theorem mkdir_relabel :
    (tree.relabel change).mkdir path = (tree.mkdir path).map fun made ↦ made.relabel change := by
  rw [mkdir, mkdir]
  by_cases hfree : path ≠ [] ∧ tree.IsDir path.dropLast ∧ tree.find path = none
  · have hfree' : path ≠ [] ∧ (tree.relabel change).IsDir path.dropLast ∧
        (tree.relabel change).find path = none :=
      ⟨hfree.1, isDir_relabel.mpr hfree.2.1, find_relabel_eq_none.mpr hfree.2.2⟩
    rw [dif_pos hfree, dif_pos hfree']
    exact congrArg some (add_relabel .dir)
  · rw [dif_neg hfree, dif_neg]
    · rfl
    · rwa [isDir_relabel, find_relabel_eq_none]

theorem write_relabel {content : Content} : (tree.relabel change).write path (change content) =
      (tree.write path content).map fun written ↦ written.relabel change := by
  have hread : ((tree.relabel change).read path).isSome = (tree.read path).isSome := by
    rw [read_relabel, isSome_map]
  rw [write, write]
  by_cases hfile : (tree.read path).isSome
  · rw [dif_pos hfile, dif_pos (hread.trans hfile)]
    exact congrArg some replace_relabel
  · rw [dif_neg hfile, dif_neg (by rwa [hread])]
    by_cases hfree : path ≠ [] ∧ tree.IsDir path.dropLast ∧ tree.find path = none
    · have hfree' : path ≠ [] ∧ (tree.relabel change).IsDir path.dropLast ∧
          (tree.relabel change).find path = none :=
        ⟨hfree.1, isDir_relabel.mpr hfree.2.1, find_relabel_eq_none.mpr hfree.2.2⟩
      rw [dif_pos hfree, dif_pos hfree']
      exact congrArg some (add_relabel (.file content))
    · rw [dif_neg hfree, dif_neg]
      · rfl
      · rwa [isDir_relabel, find_relabel_eq_none]

theorem rename_relabel : (tree.relabel change).rename source target =
      (tree.rename source target).map fun moved ↦ moved.relabel change := by
  rw [rename, rename]
  by_cases hmovable : tree.find source ≠ none ∧ tree.find target = none ∧ target ≠ [] ∧
      tree.IsDir target.dropLast ∧ ¬source <+: target
  · have hmovable' : (tree.relabel change).find source ≠ none ∧ (tree.relabel change).find target = none ∧
        target ≠ [] ∧ (tree.relabel change).IsDir target.dropLast ∧ ¬source <+: target := by
      rwa [ne_eq, find_relabel_eq_none, find_relabel_eq_none, isDir_relabel]
    rw [dif_pos hmovable, dif_pos hmovable']
    exact congrArg some Movable.rename_relabel
  · rw [dif_neg hmovable, dif_neg]
    · rfl
    · rwa [ne_eq, find_relabel_eq_none, find_relabel_eq_none, isDir_relabel]

end Calls

/-- The two trees are the same where contents count by what the change makes of them. -/
def Alike (change : Content → Content') (left right : FileTree Name Content) : Prop :=
  left.relabel change = right.relabel change

theorem rel_of_map_eq {Value Image : Type*} {view : Value → Image} {first second : Option Value}
    (hsame : first.map view = second.map view) :
    Option.Rel (fun value value' ↦ view value = view value') first second := by
  cases first with
  | none =>
    cases second with
    | none => exact .none
    | some value => cases hsame
  | some value =>
    cases second with
    | none => cases hsame
    | some value' => exact .some (Option.some.inj hsame)

namespace Alike

variable {left right : FileTree Name Content}

section

variable (halike : Alike change left right)
include halike

theorem find_map (path : List Name) :
    (left.find path).map (Node.relabel change) = (right.find path).map (Node.relabel change) := by
  rw [← find_relabel, ← find_relabel]
  exact congrArg (fun tree ↦ tree.find path) halike

theorem find_cases (path : List Name) : (left.find path = none ∧ right.find path = none) ∨
      (left.find path = some .dir ∧ right.find path = some .dir) ∨
        ∃ content content', left.find path = some (.file content) ∧
          right.find path = some (.file content') ∧ change content = change content' := by
  have hnode := halike.find_map path
  match hleft : left.find path, hright : right.find path with
  | none, none => exact .inl ⟨rfl, rfl⟩
  | some .dir, some .dir => exact .inr (.inl ⟨rfl, rfl⟩)
  | some (.file content), some (.file content') =>
    rw [hleft, hright] at hnode
    exact .inr (.inr ⟨content, content', rfl, rfl, Node.file.inj (Option.some.inj hnode)⟩)
  | none, some _ | some _, none | some .dir, some (.file _) | some (.file _), some .dir =>
    rw [hleft, hright] at hnode
    simp [Node.relabel] at hnode

theorem find_none : left.find path = none ↔ right.find path = none := by
  rcases halike.find_cases path with ⟨hleft, hright⟩ | ⟨hleft, hright⟩ | ⟨_, _, hleft, hright, -⟩ <;>
    simp [hleft, hright]

theorem find_dir : left.find path = some .dir ↔ right.find path = some .dir := by
  rcases halike.find_cases path with ⟨hleft, hright⟩ | ⟨hleft, hright⟩ | ⟨_, _, hleft, hright, -⟩ <;>
    simp [hleft, hright]

theorem isDir : left.IsDir path ↔ right.IsDir path := by
  rw [IsDir, IsDir, halike.find_dir]

theorem read (path : List Name) : (left.read path).map change = (right.read path).map change := by
  rw [← read_relabel, ← read_relabel]
  exact congrArg (fun tree ↦ tree.read path) halike

theorem children (dir : List Name) :
    ((left.children dir).map fun child ↦ (child.1, child.2.relabel change)) =
      (right.children dir).map fun child ↦ (child.1, child.2.relabel change) := by
  rw [← children_relabel, ← children_relabel]
  exact congrArg (fun tree ↦ tree.children dir) halike

theorem unlink (path : List Name) : Option.Rel (Alike change) (left.unlink path) (right.unlink path) := by
  apply rel_of_map_eq
  rw [← unlink_relabel, ← unlink_relabel]
  exact congrArg (fun tree ↦ tree.unlink path) halike

theorem removeTree (path : List Name) (sticks : List Name → Bool) :
    Alike change (left.removeTree path sticks) (right.removeTree path sticks) := by
  rw [Alike, ← removeTree_relabel, ← removeTree_relabel]
  exact congrArg (fun tree ↦ tree.removeTree path sticks) halike

end

section Calls

variable [DecidableEq Content] [DecidableEq Content'] {content content' : Content}

theorem mkdir (halike : Alike change left right) (path : List Name) :
    Option.Rel (Alike change) (left.mkdir path) (right.mkdir path) := by
  apply rel_of_map_eq
  rw [← mkdir_relabel, ← mkdir_relabel]
  exact congrArg (fun tree ↦ tree.mkdir path) halike

theorem write (halike : Alike change left right) (hcontent : change content = change content')
    (path : List Name) :
    Option.Rel (Alike change) (left.write path content) (right.write path content') := by
  apply rel_of_map_eq
  rw [← write_relabel, ← write_relabel, hcontent]
  exact congrArg (fun tree ↦ tree.write path (change content')) halike

theorem of_write (hcontent : change content = change content') (hread : left.read path = some content)
    (hwrite : left.write path content' = some right) : Alike change left right := by
  have hrewritten := write (rfl : Alike change left left) hcontent path
  rw [write_of_read hread, hwrite] at hrewritten
  cases hrewritten with
  | some halike => exact halike

theorem rename (halike : Alike change left right) (source target : List Name) :
    Option.Rel (Alike change) (left.rename source target) (right.rename source target) := by
  apply rel_of_map_eq
  rw [← rename_relabel, ← rename_relabel]
  exact congrArg (fun tree ↦ tree.rename source target) halike

end Calls

end Alike

end FileTree

end DhcpServer.Library
