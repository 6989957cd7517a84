import Mathlib.Data.List.Basic

/-!
# Pages of a list

A page is what falls into a window of a list. Pages of one size, one after the other, are the list.
-/

namespace DhcpServer.Library

open List

variable {α : Type*} {offset limit : Nat}

/-- The list from `offset` on, at most `limit` of it. -/
def pageOf (offset limit : Nat) (items : List α) : List α := (items.drop offset).take limit

theorem pageOf_concat (items : List α) (item : α) : pageOf offset limit (items ++ [item]) =
      if offset ≤ items.length ∧ (pageOf offset limit items).length < limit then
        pageOf offset limit items ++ [item]
      else pageOf offset limit items := by
  unfold pageOf
  split_ifs with hwindow
  · obtain ⟨hoffset, hroom⟩ := hwindow
    rw [length_take] at hroom
    have hshort : (items.drop offset).length < limit := by omega
    have hmore : (items.drop offset ++ [item]).length ≤ limit := by
      rw [length_append, length_singleton]
      omega
    rw [drop_append_of_le_length hoffset, take_of_length_le hmore, take_of_length_le (Nat.le_of_lt hshort)]
  · by_cases hoffset : offset ≤ items.length
    · have hfull : limit ≤ (items.drop offset).length := by
        rw [length_take] at hwindow
        omega
      rw [drop_append_of_le_length hoffset, take_append_of_le_length hfull]
    · have hbefore : (items ++ [item]).length ≤ offset := by
        rw [length_append, length_singleton]
        omega
      rw [drop_of_length_le hbefore, drop_of_length_le (by omega)]

theorem length_pageOf (items : List α) :
    (pageOf offset limit items).length = min limit (items.length - offset) := by
  rw [pageOf, length_take, length_drop]

theorem flatMap_pageOf (items : List α) (count : Nat) :
    (List.range count).flatMap (fun number ↦ pageOf (number * limit) limit items) =
      items.take (count * limit) := by
  induction count with
  | zero => simp
  | succ count ih =>
    rw [range_succ, flatMap_append, ih, flatMap_singleton, pageOf, ← take_add, Nat.succ_mul]

end DhcpServer.Library
