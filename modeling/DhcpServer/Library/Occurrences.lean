import Mathlib.Data.List.Infix

/-!
# The first occurrence of a pattern

A text cut at the first place where a pattern stands in it. What is found does not change when the text
goes on, and a place found in what follows a text is the first one when none begins in the text.
-/

namespace DhcpServer.Library

open List Option

variable {α : Type*} [DecidableEq α]

/-- The text before and behind the first occurrence of a pattern. -/
def cutAt (pattern : List α) : List α → Option (List α × List α)
  | [] => if pattern = [] then some ([], []) else none
  | letter :: text =>
    if pattern <+: letter :: text then some ([], (letter :: text).drop pattern.length)
    else (cutAt pattern text).map fun cut ↦ (letter :: cut.1, cut.2)

def occurrences (pattern : List α) : List α → Nat
  | [] => if pattern = [] then 1 else 0
  | letter :: text => (if pattern <+: letter :: text then 1 else 0) + occurrences pattern text

variable {pattern text before behind more : List α} {letter : α}

theorem eq_of_cutAt (hcut : cutAt pattern text = some (before, behind)) :
    text = before ++ pattern ++ behind := by
  induction text generalizing before with
  | nil =>
    rw [cutAt] at hcut
    split_ifs at hcut with hnil
    cases hcut
    rw [hnil]
    rfl
  | cons letter text ih =>
    rw [cutAt] at hcut
    split_ifs at hcut with hhere
    · cases hcut
      rw [nil_append]
      exact (prefix_iff_eq_append.mp hhere).symm
    · obtain ⟨⟨front, back⟩, hrest, hpair⟩ := map_eq_some_iff.mp hcut
      cases hpair
      rw [cons_append, cons_append, ← ih hrest]

theorem length_le_of_cutAt (hcut : cutAt pattern text = some (before, behind)) {front back : List α}
    (htext : text = front ++ pattern ++ back) : before.length ≤ front.length := by
  induction text generalizing before front with
  | nil =>
    rw [cutAt] at hcut
    split_ifs at hcut with hnil
    cases hcut
    exact Nat.zero_le _
  | cons letter text ih =>
    rw [cutAt] at hcut
    split_ifs at hcut with hhere
    · cases hcut
      exact Nat.zero_le _
    · obtain ⟨⟨inner, rest⟩, hrest, hpair⟩ := map_eq_some_iff.mp hcut
      cases hpair
      cases front with
      | nil => exact absurd ⟨back, htext.symm⟩ hhere
      | cons first front => exact Nat.succ_le_succ (ih hrest (cons.inj htext).2)

theorem cutAt_eq_none_iff : cutAt pattern text = none ↔ ¬pattern <:+: text := by
  induction text with
  | nil => simp [cutAt]
  | cons letter text ih =>
    rw [cutAt, infix_cons_iff]
    split_ifs with hhere
    · simp [hhere]
    · simp [hhere, ih]

theorem cutAt_append (hcut : cutAt pattern text = some (before, behind)) (more : List α) :
    cutAt pattern (text ++ more) = some (before, behind ++ more) := by
  induction text generalizing before with
  | nil =>
    rw [cutAt] at hcut
    split_ifs at hcut with hnil
    cases hcut
    cases more <;> simp [cutAt, hnil]
  | cons letter text ih =>
    rw [cutAt] at hcut
    split_ifs at hcut with hhere
    · cases hcut
      have hlater : pattern <+: letter :: (text ++ more) :=
        hhere.trans (prefix_append (letter :: text) more)
      rw [cons_append, cutAt, if_pos hlater, ← cons_append, drop_append_of_le_length hhere.length_le]
    · obtain ⟨⟨front, back⟩, hrest, hpair⟩ := map_eq_some_iff.mp hcut
      cases hpair
      have hlong : ¬pattern <+: letter :: (text ++ more) := by
        intro hlater
        have hfits : pattern.length ≤ (letter :: text).length := by
          have hlength := congrArg List.length (eq_of_cutAt hrest)
          simp only [length_append] at hlength
          simp only [length_cons]
          omega
        exact hhere (prefix_of_prefix_length_le hlater
          (prefix_append (letter :: text) more) hfits)
      rw [cons_append, cutAt, if_neg hlong, ih hrest]
      rfl

theorem cutAt_eq_some_iff : cutAt pattern text = some (before, behind) ↔
    text = before ++ pattern ++ behind ∧
      ∀ front back, text = front ++ pattern ++ back → before.length ≤ front.length := by
  constructor
  · exact fun hcut ↦ ⟨eq_of_cutAt hcut, fun front back ↦ length_le_of_cutAt hcut⟩
  · rintro ⟨htext, hfirst⟩
    cases hcut : cutAt pattern text with
    | none => exact absurd ⟨before, behind, htext.symm⟩ (cutAt_eq_none_iff.mp hcut)
    | some cut =>
      obtain ⟨front, back⟩ := cut
      have hother := eq_of_cutAt hcut
      have hlength : before.length = front.length :=
        Nat.le_antisymm (hfirst front back hother) (length_le_of_cutAt hcut htext)
      have hsame : before ++ (pattern ++ behind) = front ++ (pattern ++ back) := by
        rw [← append_assoc, ← append_assoc, ← htext, ← hother]
      obtain ⟨rfl, hrest⟩ := append_inj hsame hlength
      rw [append_cancel_left hrest]

theorem cutAt_cons_of_not_here (hhere : ¬pattern <+: letter :: text) :
    cutAt pattern (letter :: text) = (cutAt pattern text).map fun cut ↦ (letter :: cut.1, cut.2) := by
  rw [cutAt, if_neg hhere]

theorem occurrences_cons_of_not_here (hhere : ¬pattern <+: letter :: text) :
    occurrences pattern (letter :: text) = occurrences pattern text := by
  rw [occurrences, if_neg hhere, Nat.zero_add]

theorem cutAt_append_of_notMem {first : α} {rest piece : List α} (hpiece : first ∉ piece)
    (text : List α) :
    cutAt (first :: rest) (piece ++ text) =
      (cutAt (first :: rest) text).map fun cut ↦ (piece ++ cut.1, cut.2) := by
  induction piece with
  | nil => simp
  | cons letter piece ih =>
    obtain ⟨hletter, hrest⟩ := not_or.mp fun hmem ↦ hpiece (mem_cons.mpr hmem)
    have hhere : ¬first :: rest <+: letter :: (piece ++ text) :=
      fun hprefix ↦ hletter (cons_prefix_cons.mp hprefix).1
    rw [cons_append, cutAt_cons_of_not_here hhere, ih hrest, Option.map_map]
    rfl

theorem cutAt_singleton (hletter : letter ∉ text) (rest : List α) :
    cutAt [letter] (text ++ letter :: rest) = some (text, rest) := by
  rw [cutAt_append_of_notMem hletter, cutAt, if_pos (by simp)]
  simp

/-- A pattern that does not stand in a text, and of which only the end of the text can hold a beginning,
is found behind what comes before that end. -/
theorem cutAt_append_of_not_infix {front overlap : List α} (hnone : ¬pattern <:+: front ++ overlap)
    (hlong : front = [] ∨ pattern.length ≤ overlap.length + 1) (text : List α) :
    cutAt pattern (front ++ (overlap ++ text)) =
      (cutAt pattern (overlap ++ text)).map fun cut ↦ (front ++ cut.1, cut.2) := by
  induction front with
  | nil => simp
  | cons letter front ih =>
    have hshort : pattern.length ≤ overlap.length + 1 := hlong.resolve_left (cons_ne_nil _ _)
    have hhere : ¬pattern <+: letter :: (front ++ (overlap ++ text)) := by
      intro hprefix
      have hwhole : pattern <+: letter :: (front ++ overlap) := by
        refine prefix_of_prefix_length_le hprefix ⟨text, by simp⟩ ?_
        simp only [length_cons, length_append]
        omega
      exact hnone hwhole.isInfix
    have hrest : ¬pattern <:+: front ++ overlap :=
      fun hinside ↦ hnone (hinside.trans (suffix_cons letter _).isInfix)
    rw [cons_append, cutAt_cons_of_not_here hhere, ih hrest (.inr hshort), Option.map_map]
    rfl

theorem occurrences_append_of_notMem {first : α} {rest piece : List α} (hpiece : first ∉ piece)
    (text : List α) :
    occurrences (first :: rest) (piece ++ text) = occurrences (first :: rest) text := by
  induction piece with
  | nil => rfl
  | cons letter piece ih =>
    obtain ⟨hletter, hrest⟩ := not_or.mp fun hmem ↦ hpiece (mem_cons.mpr hmem)
    have hhere : ¬first :: rest <+: letter :: (piece ++ text) :=
      fun hprefix ↦ hletter (cons_prefix_cons.mp hprefix).1
    rw [cons_append, occurrences_cons_of_not_here hhere, ih hrest]

end DhcpServer.Library
