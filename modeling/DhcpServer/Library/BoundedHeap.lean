import Mathlib.Data.List.Induction
import Mathlib.Data.List.Sort
import Mathlib.Data.Prod.Lex

/-!
# A heap with a bound

A priority queue that is popped whenever it holds more than its bound keeps the least items of all
that were pushed, because what it pops is always the largest. The queue is a list, largest item
first, in the order in which it drains.
-/

namespace DhcpServer.Library

open List

variable {α : Type*} [LinearOrder α]

def pushBounded (room : Nat) (heap : List α) (item : α) : List α :=
  if room < (heap.orderedInsert (· ≥ ·) item).length then (heap.orderedInsert (· ≥ ·) item).tail
  else heap.orderedInsert (· ≥ ·) item

/-- The heap holds the least of the items, and `dropped` the others. -/
structure Least (room : Nat) (items heap dropped : List α) : Prop where
  sorted : heap.Pairwise (· ≥ ·)
  perm : (heap ++ dropped).Perm items
  least : ∀ kept ∈ heap, ∀ other ∈ dropped, kept ≤ other
  length : heap.length = min room items.length

variable {room : Nat} {items heap dropped : List α} {item : α}

namespace Least

theorem nil : Least room ([] : List α) [] [] := ⟨List.Pairwise.nil, .refl _, by simp, by simp⟩

section

variable (hleast : Least room items heap dropped)
include hleast

theorem keep (hroom : heap.length < room) :
    Least room (items ++ [item]) (heap.orderedInsert (· ≥ ·) item) [] where
  sorted := List.Pairwise.orderedInsert item heap hleast.sorted
  perm := by
    have hlength := hleast.length
    have hall : (heap ++ dropped).length = items.length := hleast.perm.length_eq
    rw [length_append] at hall
    have hnone : dropped = [] := length_eq_zero_iff.mp (by omega)
    have hperm := hleast.perm
    rw [hnone, append_nil] at hperm
    rw [append_nil]
    exact (perm_orderedInsert _ item heap).trans
      ((hperm.cons item).trans (perm_append_singleton item items).symm)
  least := by simp
  length := by
    have hlength := hleast.length
    rw [orderedInsert_length, length_append, length_singleton]
    omega

theorem drop {largest : α} {rest : List α}
    (hfull : heap.length = room) (hpushed : heap.orderedInsert (· ≥ ·) item = largest :: rest) :
    Least room (items ++ [item]) rest (largest :: dropped) := by
  have hsorted := List.Pairwise.orderedInsert item heap hleast.sorted
  have hperm : (largest :: rest).Perm (item :: heap) := hpushed ▸ perm_orderedInsert _ item heap
  rw [hpushed, pairwise_cons] at hsorted
  refine ⟨hsorted.2, ?_, ?_, ?_⟩
  · calc
      (rest ++ largest :: dropped).Perm (largest :: (rest ++ dropped)) := perm_middle
      List.Perm _ (item :: (heap ++ dropped)) := hperm.append_right dropped
      List.Perm _ (item :: items) := hleast.perm.cons item
      List.Perm _ (items ++ [item]) := (perm_append_singleton item items).symm
  · intro kept hkept other hother
    rcases mem_cons.mp hother with rfl | hother
    · exact hsorted.1 kept hkept
    · -- the kept item was in the heap, or it is below one that was
      rcases mem_cons.mp (hperm.mem_iff.mp (mem_cons_of_mem largest hkept)) with rfl | hheap
      · rcases mem_cons.mp (hperm.mem_iff.mp mem_cons_self) with rfl | hlargest
        · have hsame : rest.Perm heap := hperm.cons_inv
          exact hleast.least _ (hsame.mem_iff.mp hkept) other hother
        · exact (hsorted.1 _ hkept).trans (hleast.least _ hlargest other hother)
      · exact hleast.least kept hheap other hother
  · have hlength := hperm.length_eq
    have hitems := hleast.length
    rw [length_cons, length_cons] at hlength
    rw [length_append, length_singleton]
    omega

theorem push (item : α) :
    ∃ dropped, Least room (items ++ [item]) (pushBounded room heap item) dropped := by
  have hlength := hleast.length
  have hpushed := orderedInsert_length (· ≥ ·) heap item
  unfold pushBounded
  split_ifs with hroom
  · have hpos := Nat.lt_of_lt_of_eq (Nat.succ_pos _) hpushed.symm
    obtain ⟨largest, rest, hcons⟩ := exists_cons_of_length_pos hpos
    rw [hcons, tail_cons]
    exact ⟨_, hleast.drop (by omega) hcons⟩
  · exact ⟨[], hleast.keep (by omega)⟩

end

end Least

theorem exists_least (room : Nat) (items : List α) :
    ∃ dropped, Least room items (items.foldl (pushBounded room) []) dropped := by
  induction items using reverseRecOn with
  | nil => exact ⟨[], .nil⟩
  | append_singleton items item ih =>
    obtain ⟨dropped, hleast⟩ := ih
    rw [foldl_concat]
    exact hleast.push item

end DhcpServer.Library
