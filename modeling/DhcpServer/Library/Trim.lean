import Mathlib.Data.List.DropRight

/-!
# Trimming

What satisfies a predicate is taken off both ends of a list. A list of lists is trimmed before or after
it is joined, when the predicate holds of all or of none of the elements of each part.
-/

namespace DhcpServer.Library

open List

variable {α : Type*} {p : α → Bool} {list : List α}

def trimBy (p : α → Bool) (list : List α) : List α := (list.dropWhile p).rdropWhile p

theorem trimBy_sublist (p : α → Bool) (list : List α) : (trimBy p list).Sublist list := by
  have hfront : (list.dropWhile p).Sublist list := dropWhile_sublist p
  have hback : (trimBy p list).Sublist (list.dropWhile p) := ( rdropWhile_prefix p _).sublist
  exact hback.trans hfront

theorem head_trimBy (p : α → Bool) (list : List α) : ∀ item ∈ (trimBy p list).head?, p item = false := by
  intro item hitem
  have hprefix : trimBy p list <+: list.dropWhile p := rdropWhile_prefix p _
  obtain ⟨rest, hrest⟩ := hprefix
  obtain ⟨tail, htail⟩ := head?_eq_some_iff.mp hitem
  have hnot := head?_dropWhile_not p list
  rw [← hrest, htail] at hnot
  simpa using hnot

theorem last_rdropWhile (p : α → Bool) (list : List α) :
    ∀ item ∈ (list.rdropWhile p).getLast?, p item = false := by
  intro item hitem
  have hfilled : list.rdropWhile p ≠ [] := by
    intro hempty
    rw [hempty] at hitem
    cases hitem
  have hnot : ¬p ((list.rdropWhile p).getLast hfilled) := rdropWhile_last_not p _ hfilled
  rw [getLast?_eq_some_getLast hfilled] at hitem
  rwa [← Option.some.inj hitem, ← Bool.not_eq_true]

theorem trimBy_eq_self_iff : trimBy p list = list ↔
    (∀ item ∈ list.head?, p item = false) ∧ ∀ item ∈ list.getLast?, p item = false := by
  constructor
  · intro hlist
    have hhead := head_trimBy p list
    have hlast := last_rdropWhile p (list.dropWhile p)
    rw [hlist] at hhead
    rw [← trimBy, hlist] at hlast
    exact ⟨hhead, hlast⟩
  · rintro ⟨hhead, hlast⟩
    have hfront : list.dropWhile p = list := by
      cases list with
      | nil => rfl
      | cons item list => rw [dropWhile_cons_of_neg (by simp [hhead item rfl])]
    have hback : list.rdropWhile p = list := by
      apply rdropWhile_eq_self_iff.mpr
      intro hfilled
      rw [hlast _ (getLast?_eq_some_getLast hfilled)]
      exact Bool.false_ne_true
    rw [trimBy, hfront, hback]

theorem trimBy_trimBy (p : α → Bool) (list : List α) : trimBy p (trimBy p list) = trimBy p list :=
  trimBy_eq_self_iff.mpr ⟨head_trimBy p list, last_rdropWhile p _⟩

theorem mem_dropWhile_or {item : α} (hitem : item ∈ list) : item ∈ list.dropWhile p ∨ p item := by
  rw [← takeWhile_append_dropWhile (p := p) (l := list)] at hitem
  rcases mem_append.mp hitem with hfront | hrest
  · exact .inr (mem_takeWhile_imp hfront)
  · exact .inl hrest

theorem mem_trimBy_or {item : α} (hitem : item ∈ list) : item ∈ trimBy p list ∨ p item := by
  rcases mem_dropWhile_or (p := p) hitem with hrest | hfront
  · rw [← rdropWhile_append_rtakeWhile (p := p) (l := list.dropWhile p)] at hrest
    rcases mem_append.mp hrest with hmiddle | hback
    · exact .inl hmiddle
    · exact .inr (mem_rtakeWhile_imp hback)
  · exact .inr hfront

theorem getLast?_dropWhile_iff {item : α} : (list.dropWhile p).getLast? = some item ↔
      list.getLast? = some item ∧ ∃ other ∈ list, p other = false := by
  rcases hrest : list.dropWhile p with _ | ⟨other, rest⟩
  · have hall : ∀ other ∈ list, p other = true := dropWhile_eq_nil_iff.mp hrest
    refine iff_of_false (by simp) ?_
    rintro ⟨-, other, hmem, hother⟩
    rw [hall other hmem] at hother
    cases hother
  · have hlast : list.getLast? = (other :: rest).getLast? := by
      rw [← takeWhile_append_dropWhile (p := p) (l := list), hrest, getLast?_append_cons]
    have hhead := head?_dropWhile_not p list
    rw [hrest] at hhead
    have hmem : other ∈ list := (dropWhile_sublist p).subset (hrest ▸ mem_cons_self)
    rw [hlast, and_iff_left ⟨other, hmem, by simpa using hhead⟩]

theorem rdropWhile_append_cons {item : α} (hitem : p item = false) (front back : List α) :
    (front ++ item :: back).rdropWhile p = front ++ item :: back.rdropWhile p := by
  induction back using reverseRecOn with
  | nil => exact rdropWhile_concat_neg p front item (by simp [hitem])
  | append_singleton back last ih =>
    rw [← cons_append, ← append_assoc]
    cases hlast : p last with
    | true =>
      rw [rdropWhile_concat_pos p _ last hlast, rdropWhile_concat_pos p _ last hlast, ih]
    | false =>
      rw [rdropWhile_concat_neg p _ last (by simp [hlast]),
        rdropWhile_concat_neg p _ last (by simp [hlast]), append_assoc]
      rfl

/-- What comes before the first element with the property is not touched by taking them off the end. -/
theorem takeWhile_rdropWhile (p : α → Bool) (list : List α) :
    ((list.rdropWhile p).takeWhile fun item ↦ !p item) = list.takeWhile fun item ↦ !p item := by
  induction list using reverseRecOn with
  | nil => rfl
  | append_singleton list last ih =>
    cases hlast : p last with
    | true =>
      rw [rdropWhile_concat_pos p list last hlast, ih, takeWhile_append]
      split_ifs with hall
      · have hnothing : [last].takeWhile (fun item ↦ !p item) = [] :=
          takeWhile_cons_of_neg (by simp [hlast])
        rw [hnothing, append_nil]
        exact ( takeWhile_prefix _).eq_of_length hall
      · rfl
    | false => rw [rdropWhile_concat_neg p list last (by simp [hlast])]

section Parts

variable {q : List α → Bool} {parts : List (List α)}

/-- The predicate holds of all or of none of the elements of the part. -/
def Undivided (p : α → Bool) (q : List α → Bool) (part : List α) : Prop :=
  part ≠ [] ∧ ∀ item ∈ part, p item = q part

section

variable (hundivided : ∀ part ∈ parts, Undivided p q part)
include hundivided

theorem dropWhile_flatten : parts.flatten.dropWhile p = (parts.dropWhile q).flatten := by
  induction parts with
  | nil => rfl
  | cons part parts ih =>
    obtain ⟨⟨hfilled, hsame⟩, hrest⟩ := forall_mem_cons.mp hundivided
    rw [flatten_cons]
    cases hpart : q part with
    | true =>
      rw [dropWhile_append_of_pos fun item hitem ↦ (hsame item hitem).trans hpart, ih hrest,
        dropWhile_cons_of_pos hpart]
    | false =>
      obtain ⟨item, rest, rfl⟩ := exists_cons_of_ne_nil hfilled
      have hitem : p item = false := (hsame item mem_cons_self).trans hpart
      rw [dropWhile_cons_of_neg (by simp [hpart]), cons_append, dropWhile_cons_of_neg (by simp [hitem])]
      rfl

theorem rdropWhile_flatten : parts.flatten.rdropWhile p = (parts.rdropWhile q).flatten := by
  induction parts using reverseRecOn with
  | nil => rfl
  | append_singleton parts part ih =>
    obtain ⟨hfilled, hsame⟩ := hundivided part (by simp)
    have hrest : ∀ part ∈ parts, Undivided p q part := fun part hpart ↦ hundivided part (by simp [hpart])
    rw [flatten_append, flatten_singleton]
    cases hpart : q part with
    | true =>
      have hall : ∀ item ∈ part.reverse, p item := fun item hitem ↦
        (hsame item (mem_reverse.mp hitem)).trans hpart
      rw [rdropWhile_concat_pos q parts part hpart, ← ih hrest, List.rdropWhile, reverse_append,
        dropWhile_append_of_pos hall]
      rfl
    | false =>
      rw [rdropWhile_concat_neg q parts part (by simp [hpart]), flatten_append, flatten_singleton]
      apply rdropWhile_eq_self_iff.mpr
      intro hne
      rw [getLast_append_of_ne_nil _ hfilled, hsame _ (getLast_mem hfilled), hpart]
      exact Bool.false_ne_true

theorem takeWhile_flatten :
    (parts.flatten.takeWhile fun item ↦ !p item) = (parts.takeWhile fun part ↦ !q part).flatten := by
  induction parts with
  | nil => rfl
  | cons part parts ih =>
    obtain ⟨⟨hfilled, hsame⟩, hrest⟩ := forall_mem_cons.mp hundivided
    rw [flatten_cons]
    cases hpart : q part with
    | true =>
      obtain ⟨item, rest, rfl⟩ := exists_cons_of_ne_nil hfilled
      have hitem : p item := (hsame item mem_cons_self).trans hpart
      rw [takeWhile_cons_of_neg (by simp [hpart]), cons_append, takeWhile_cons_of_neg (by simp [hitem])]
      rfl
    | false =>
      have hall : ∀ item ∈ part, (!p item) := fun item hitem ↦ by rw [hsame item hitem, hpart]; rfl
      rw [takeWhile_append_of_pos hall, ih hrest, takeWhile_cons_of_pos (by simp [hpart])]
      rfl

theorem trimBy_flatten : trimBy p parts.flatten = (trimBy q parts).flatten := by
  have hrest : ∀ part ∈ parts.dropWhile q, Undivided p q part :=
    fun part hpart ↦ hundivided part ((dropWhile_sublist q).subset hpart)
  rw [trimBy, dropWhile_flatten hundivided, rdropWhile_flatten hrest, trimBy]

end

end Parts

end DhcpServer.Library
