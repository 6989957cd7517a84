import DhcpServer.Files.FileManager
import DhcpServer.Library.Relabel

/-!
# What the operations see of a file

Two volumes are alike where they have the same names and directories, and files of the same lengths. An
operation that does not hand out the content of a file answers the same on both, with the same errors, and
leaves volumes that are alike again.
-/

namespace DhcpServer.Files

open Library Storage.PathUtil List

/-- Two volumes that differ in nothing but the bytes of files. -/
def Alike (left right : Tree) : Prop := FileTree.Alike List.length left right

theorem Alike.refl (tree : Tree) : Alike tree tree := rfl

inductive BothAnswer {Answer : Type} (related : Answer → Answer → Prop) :
    Except Failure Answer → Except Failure Answer → Prop
  | error (failure : Failure) : BothAnswer related (.error failure) (.error failure)
  | ok {answer answer' : Answer} (hanswer : related answer answer') :
      BothAnswer related (.ok answer) (.ok answer')

namespace FileManager

variable {Answer : Type} {related : Answer → Answer → Prop} {left right : Tree}

def entryOfLength (name : Bytes) : Node Nat → FileEntry
  | .file length => ⟨name, false, length⟩
  | .dir => ⟨name, true, 0⟩

theorem entryOf_eq (name : Bytes) (node : Node Bytes) :
    entryOf name node = entryOfLength name (node.relabel List.length) := by
  cases node <;> rfl

theorem within_both {operation operation' : List Bytes → Except Failure Answer} (fate : Fate) (path : Bytes)
    (hboth : ∀ names, BothAnswer related (operation names) (operation' names)) :
    BothAnswer related (within fate path operation) (within fate path operation') := by
  unfold within
  cases fate.refused with
  | some status => exact .error _
  | none =>
    cases absolute path with
    | none => exact .error _
    | some names => exact hboth names

theorem stat_alike (halike : Alike left right) (fate : Fate) (path : Bytes) :
    stat fate left path = stat fate right path := by
  unfold stat
  congr 1
  funext names
  rcases halike.find_cases names with ⟨hleft, hright⟩ | ⟨hleft, hright⟩ | ⟨_, _, hleft, hright, hlength⟩
  · rw [hleft, hright]
  · rw [hleft, hright]
  · rw [hleft, hright]
    simp only [entryOf_eq, Node.relabel, hlength]

theorem visible_eq (tree : Tree) (names : List Bytes) : visible tree names =
      ((tree.children names).map fun child ↦ (child.1, child.2.relabel List.length)).filterMap fun child ↦
        if isPartName child.1 then none else some (entryOfLength child.1 child.2) := by
  rw [visible, filterMap_map]
  simp only [entryOf_eq]
  rfl

section

variable (halike : Alike left right)
include halike

theorem visible_alike (names : List Bytes) : visible left names = visible right names := by
  rw [visible_eq, visible_eq, halike.children]

theorem scan_alike (fate : Fate) (path : Bytes) : scan fate left path = scan fate right path := by
  unfold scan
  congr 1
  funext names
  simp only [halike.isDir, halike.find_none, visible_alike halike]

theorem mkdir_alike (fate : Fate) (path : Bytes) :
    BothAnswer Alike (mkdir fate left path) (mkdir fate right path) := by
  refine within_both fate path fun names ↦ ?_
  simp only [ne_eq, halike.find_none]
  split_ifs
  · exact .error _
  · have hmade := halike.mkdir names
    generalize left.mkdir names = made, right.mkdir names = made' at hmade ⊢
    cases hmade with
    | none => exact .error _
    | some hmade => exact .ok hmade

theorem rename_alike (fate : Fate) (source target : Bytes) :
    BothAnswer Alike (rename fate left source target) (rename fate right source target) := by
  refine within_both fate source fun sourceNames ↦ within_both fate target fun targetNames ↦ ?_
  simp only [ne_eq, halike.find_none]
  split_ifs
  · exact .error _
  · exact .error _
  · exact .error _
  · have hmoved := halike.rename sourceNames targetNames
    generalize left.rename sourceNames targetNames = moved,
      right.rename sourceNames targetNames = moved' at hmoved ⊢
    cases hmoved with
    | none => exact .error _
    | some hmoved => exact .ok hmoved
  · exact .error _

theorem remove_alike (fate : Fate) (path : Bytes) (recursive : Bool) :
    (remove fate left path recursive).1 = (remove fate right path recursive).1 ∧
      Alike (remove fate left path recursive).2 (remove fate right path recursive).2 := by
  unfold remove
  split
  case h_1 => exact ⟨rfl, halike⟩
  case h_2 names _ =>
    by_cases hroot : names = []
    · rw [if_pos hroot, if_pos hroot]
      exact ⟨rfl, halike⟩
    · rw [if_neg hroot, if_neg hroot]
      rcases halike.find_cases names with ⟨hleft, hright⟩ | ⟨hleft, hright⟩ | ⟨_, _, hleft, hright, -⟩
      · rw [hleft, hright]
        exact ⟨rfl, halike⟩
      · have hempty : (left.children names).isEmpty = (right.children names).isEmpty := by
          have hchildren := congrArg List.isEmpty (halike.children names)
          rwa [isEmpty_map, isEmpty_map] at hchildren
        have hremoved := halike.removeTree names fate.sticks
        rw [hleft, hright]
        simp only [hempty, hremoved.find_none]
        split_ifs
        · exact ⟨rfl, halike⟩
        · exact ⟨rfl, hremoved⟩
        · exact ⟨rfl, hremoved⟩
      · have hunlinked := halike.unlink names
        rw [hleft, hright]
        generalize left.unlink names = rest, right.unlink names = rest' at hunlinked ⊢
        cases hunlinked with
        | none => exact ⟨rfl, halike⟩
        | some hrest => exact ⟨rfl, hrest⟩

theorem openRead_alike (fate : Fate) (path : Bytes) :
    BothAnswer (fun content content' ↦ content.length = content'.length)
      (openRead fate left path) (openRead fate right path) := by
  refine within_both fate path fun names ↦ ?_
  split_ifs
  · exact .error _
  · rcases halike.find_cases names with ⟨hleft, hright⟩ | ⟨hleft, hright⟩ | ⟨_, _, hleft, hright, hlength⟩
    · rw [hleft, hright]
      exact .error _
    · rw [hleft, hright]
      exact .error _
    · rw [hleft, hright]
      exact .ok hlength

end

end FileManager

namespace FileSink

variable {left right : Tree} (sink : FileSink)

section

variable (halike : Alike left right)
include halike

theorem create_alike (path : List Bytes) :
    Option.Rel (fun opened opened' ↦ opened.1 = opened'.1 ∧ Alike opened.2 opened'.2)
      (create left path) (create right path) := by
  have hopened : Option.Rel Alike (left.write (partOf path) []) (right.write (partOf path) []) :=
    halike.write rfl (partOf path)
  unfold create
  generalize left.write (partOf path) [] = opened, right.write (partOf path) [] = opened' at hopened ⊢
  cases hopened with
  | none => exact .none
  | some hopened => exact .some ⟨rfl, hopened⟩

theorem write_alike (fate : Fate) {data data' : Bytes}
    (hdata : data.length = data'.length) :
    Option.Rel Alike (sink.write fate left data) (sink.write fate right data') := by
  unfold write
  cases fate.refused with
  | some status => exact .none
  | none =>
    have hread := halike.read sink.partPath
    refine halike.write ?_ sink.partPath
    rw [length_append, length_append, hdata]
    congr 1
    generalize left.read sink.partPath = content, right.read sink.partPath = content' at hread ⊢
    cases FileTree.rel_of_map_eq hread with
    | none => rfl
    | some hlength => exact hlength

theorem unlink_alike (path : List Bytes) :
    Alike ((left.unlink path).getD left) ((right.unlink path).getD right) := by
  have hrest := halike.unlink path
  generalize left.unlink path = rest, right.unlink path = rest' at hrest ⊢
  cases hrest with
  | none => exact halike
  | some hrest => exact hrest

theorem abort_alike (fate : Fate) : Alike (sink.abort fate left) (sink.abort fate right) := by
  unfold abort
  cases fate.refused with
  | some status => exact halike
  | none => exact unlink_alike halike sink.partPath

theorem unlinkFinal_alike (fate : Fate) :
    Alike (sink.unlinkFinal fate left) (sink.unlinkFinal fate right) := by
  unfold unlinkFinal
  cases fate.refused with
  | some status => exact halike
  | none => exact unlink_alike halike sink.finalPath

theorem commit_alike (flush unlink rename abort : Fate) :
    (sink.commit flush unlink rename abort left).1 = (sink.commit flush unlink rename abort right).1 ∧
      Alike (sink.commit flush unlink rename abort left).2
        (sink.commit flush unlink rename abort right).2 := by
  unfold commit
  cases flush.refused with
  | some status => exact ⟨rfl, sink.abort_alike halike abort⟩
  | none =>
    have hcleared := sink.unlinkFinal_alike halike unlink
    have hmoved := hcleared.rename sink.partPath sink.finalPath
    dsimp only
    generalize (sink.unlinkFinal unlink left).rename sink.partPath sink.finalPath = moved,
      (sink.unlinkFinal unlink right).rename sink.partPath sink.finalPath = moved' at hmoved ⊢
    cases rename.refused with
    | some status => exact ⟨rfl, sink.abort_alike hcleared abort⟩
    | none =>
      cases hmoved with
      | none => exact ⟨rfl, sink.abort_alike hcleared abort⟩
      | some hmoved => exact ⟨rfl, hmoved⟩

end

end FileSink

theorem FileManager.createWriter_alike {left right : Tree} (halike : Alike left right) (fate : Fate)
    (path : Bytes) :
    BothAnswer (fun opened opened' ↦ opened.1 = opened'.1 ∧ Alike opened.2 opened'.2)
      (createWriter fate left path) (createWriter fate right path) := by
  refine within_both fate path fun names ↦ ?_
  simp only [halike.find_dir]
  split_ifs
  · exact .error _
  · exact .error _
  · have hopened := FileSink.create_alike halike names
    generalize FileSink.create left names = opened, FileSink.create right names = opened' at hopened ⊢
    cases hopened with
    | none => exact .error _
    | some hopened => exact .ok hopened

end DhcpServer.Files
