import Mathlib.Data.List.DropRight

/-!
# Lines of a text

A text is cut into lines at a separator. The separator ends a line, so a text of whole lines ends
with one; what follows the last separator is a line too, unless it is empty.
-/

namespace DhcpServer.Library

open List

variable {α : Type*}

def linesOf [DecidableEq α] (separator : α) (text : List α) : List (List α) :=
  if (text.splitOn separator).getLast? = some [] then (text.splitOn separator).dropLast
  else text.splitOn separator

def terminated (separator : α) (lines : List (List α)) : List α :=
  lines.flatMap fun line ↦ line ++ [separator]

def Whole (separator : α) (text : List α) : Prop :=
  ∃ lines, (∀ line ∈ lines, separator ∉ line) ∧ text = terminated separator lines

variable {separator : α} {line front back text : List α} {lines more : List (List α)}

@[simp] theorem terminated_nil : terminated separator ([] : List (List α)) = [] := rfl

@[simp] theorem terminated_cons :
    terminated separator (line :: lines) = line ++ separator :: terminated separator lines := by
  simp [terminated]

@[simp] theorem terminated_append :
    terminated separator (lines ++ more) = terminated separator lines ++ terminated separator more := by
  simp [terminated]

theorem whole_nil : Whole separator ([] : List α) := ⟨[], by simp, rfl⟩

theorem whole_terminated (hlines : ∀ line ∈ lines, separator ∉ line) :
    Whole separator (terminated separator lines) := ⟨lines, hlines, rfl⟩

theorem whole_line (hline : separator ∉ line) : Whole separator (line ++ [separator]) :=
  ⟨[line], by simpa using hline, by simp⟩

theorem Whole.append (hfront : Whole separator front) (hback : Whole separator back) :
    Whole separator (front ++ back) := by
  obtain ⟨lines, hlines, rfl⟩ := hfront
  obtain ⟨more, hmore, rfl⟩ := hback
  rw [← terminated_append]
  exact whole_terminated (forall_mem_append.mpr ⟨hlines, hmore⟩)

variable [DecidableEq α]

@[simp] theorem linesOf_nil : linesOf separator [] = [] := by simp [linesOf]

theorem linesOf_line (hline : separator ∉ line) :
    linesOf separator (line ++ separator :: text) = line :: linesOf separator text := by
  obtain ⟨piece, pieces, hpieces⟩ := exists_cons_of_ne_nil (splitOn_ne_nil separator text)
  rw [linesOf, linesOf, splitOn_append_cons_self_of_not_mem hline, hpieces,
    getLast?_cons_cons, dropLast_cons_cons]
  split_ifs <;> rfl

theorem linesOf_terminated_append (hlines : ∀ line ∈ lines, separator ∉ line) :
    linesOf separator (terminated separator lines ++ text) = lines ++ linesOf separator text := by
  induction lines with
  | nil => rfl
  | cons line lines ih =>
    obtain ⟨hline, hlines⟩ := forall_mem_cons.mp hlines
    rw [terminated_cons, append_assoc, cons_append, linesOf_line hline, ih hlines, cons_append]

theorem linesOf_terminated (hlines : ∀ line ∈ lines, separator ∉ line) :
    linesOf separator (terminated separator lines) = lines := by
  calc
    linesOf separator (terminated separator lines) =
        linesOf separator (terminated separator lines ++ []) := by rw [append_nil]
    _ = lines ++ linesOf separator [] := linesOf_terminated_append hlines
    _ = lines := by rw [linesOf_nil, append_nil]

theorem Whole.linesOf_append (hfront : Whole separator front) :
    linesOf separator (front ++ back) = linesOf separator front ++ linesOf separator back := by
  obtain ⟨lines, hlines, rfl⟩ := hfront
  rw [linesOf_terminated_append hlines, linesOf_terminated hlines]

theorem linesOf_append_line (hfront : Whole separator front) (hline : separator ∉ line) :
    linesOf separator (front ++ (line ++ [separator])) = linesOf separator front ++ [line] := by
  rw [hfront.linesOf_append, linesOf_line hline, linesOf_nil]

end DhcpServer.Library
