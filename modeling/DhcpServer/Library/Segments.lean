import Mathlib.Data.List.Basic
import Mathlib.Data.List.TakeWhile

/-!
# Segments joined by a separator

A list of segments written one after the other, each behind a separator, as the names in a path.
Where no segment holds the separator, the text determines the segments, and one text continues
another behind a separator exactly when its segments continue the other's.
-/

namespace DhcpServer.Library

open List

variable {α : Type*}

def joined (separator : α) (segments : List (List α)) : List α := segments.flatMap (separator :: ·)

variable {separator : α} {segments others : List (List α)} {segment other : List α}

@[simp] theorem joined_nil : joined separator [] = [] := rfl

@[simp] theorem joined_cons :
    joined separator (segment :: segments) = separator :: (segment ++ joined separator segments) :=
  rfl

@[simp] theorem joined_append :
    joined separator (segments ++ others) = joined separator segments ++ joined separator others :=
  flatMap_append

theorem joined_eq_nil : joined separator segments = [] ↔ segments = [] := by
  cases segments <;> simp

theorem splitOn_joined [BEq α] [LawfulBEq α] (hfree : ∀ segment ∈ segments, separator ∉ segment) :
    (joined separator segments).splitOn separator = [] :: segments := by
  induction segments with
  | nil => rfl
  | cons segment segments ih =>
    obtain ⟨hsegment, hfree⟩ := forall_mem_cons.mp hfree
    have hhead : (joined separator (segment :: segments)).splitOn separator =
        [] :: (segment ++ joined separator segments).splitOn separator :=
      splitOn_append_cons_self [] _
    rw [hhead]
    congr 1
    cases segments with
    | nil =>
      rw [joined_nil, append_nil]
      exact splitOn_eq_singleton hsegment
    | cons next rest =>
      rw [joined_cons, splitOn_append_cons_self_of_not_mem hsegment]
      have htail := ih hfree
      rw [joined_cons] at htail
      have hsplit : (separator :: (next ++ joined separator rest)).splitOn separator =
          [] :: (next ++ joined separator rest).splitOn separator :=
        splitOn_append_cons_self [] _
      rw [hsplit] at htail
      exact congrArg (segment :: ·) (cons.inj htail).2

theorem notMem_of_mem_splitOn [BEq α] [LawfulBEq α] {text piece : List α}
    (hpiece : piece ∈ text.splitOn separator) : separator ∉ piece := by
  induction text generalizing piece with
  | nil =>
    rw [splitOn_nil, mem_singleton] at hpiece
    simp [hpiece]
  | cons letter text ih =>
    rw [splitOn_cons_eq_if_modifyHead] at hpiece
    split at hpiece
    · rcases mem_cons.mp hpiece with rfl | hrest
      · simp
      · exact ih hrest
    · rename_i hletter
      obtain ⟨first, rest, hsplit⟩ := exists_cons_of_ne_nil (splitOn_ne_nil separator text)
      rw [hsplit, modifyHead_cons] at hpiece
      rcases mem_cons.mp hpiece with rfl | hrest
      · have hfirst : separator ∉ first := ih (hsplit ▸ mem_cons_self)
        have hne : separator ≠ letter := fun heq ↦ hletter (by simp [heq])
        simp [hne, hfirst]
      · exact ih (hsplit ▸ mem_cons_of_mem first hrest)

theorem mem_splitOn_of_mem [BEq α] [LawfulBEq α] {text : List α} {letter : α} (hletter : letter ∈ text) :
    letter = separator ∨ ∃ piece ∈ text.splitOn separator, letter ∈ piece := by
  have hmem (pieces : List (List α)) (hmem : letter ∈ [separator].intercalate pieces) :
      letter = separator ∨ ∃ piece ∈ pieces, letter ∈ piece := by
    induction pieces with
    | nil => cases hmem
    | cons piece pieces ih =>
      cases pieces with
      | nil => exact .inr ⟨piece, mem_cons_self, by simpa using hmem⟩
      | cons next pieces =>
        rw [intercalate_cons_cons, mem_append, mem_append, mem_singleton] at hmem
        rcases hmem with (hfirst | hseparator) | hrest
        · exact .inr ⟨piece, mem_cons_self, hfirst⟩
        · exact .inl hseparator
        · exact (ih hrest).imp_right fun ⟨other, hother, hin⟩ ↦ ⟨other, mem_cons_of_mem _ hother, hin⟩
  exact hmem _ (by rwa [intercalate_splitOn])

theorem joined_injective (hsegments : ∀ segment ∈ segments, separator ∉ segment)
    (hothers : ∀ segment ∈ others, separator ∉ segment)
    (hjoined : joined separator segments = joined separator others) : segments = others := by
  classical
  have hsplit := congrArg (List.splitOn separator) hjoined
  rw [splitOn_joined hsegments, splitOn_joined hothers] at hsplit
  exact (cons.inj hsplit).2

theorem eq_of_append_prefix {rest tail : List α} (hsegment : separator ∉ segment)
    (hother : separator ∉ other) (htail : tail = [] ∨ ∃ behind, tail = separator :: behind)
    (hbelow : segment ++ separator :: rest <+: other ++ tail) :
    segment = other ∧ separator :: rest <+: tail := by
  induction segment generalizing other with
  | nil =>
    cases other with
    | nil => exact ⟨rfl, hbelow⟩
    | cons first other =>
      have hfirst : separator = first := (cons_prefix_cons.mp hbelow).1
      exact absurd (hfirst ▸ mem_cons_self) hother
  | cons first segment ih =>
    cases other with
    | nil =>
      rcases htail with rfl | ⟨behind, rfl⟩
      · exact absurd (prefix_nil.mp hbelow) (by simp)
      · have hfirst : first = separator := (cons_prefix_cons.mp hbelow).1
        exact absurd (hfirst ▸ mem_cons_self) hsegment
    | cons same other =>
      obtain ⟨rfl, hbehind⟩ := cons_prefix_cons.mp hbelow
      obtain ⟨rfl, hrest⟩ := ih (fun hmem ↦ hsegment (mem_cons_of_mem _ hmem))
        (fun hmem ↦ hother (mem_cons_of_mem _ hmem)) hbehind
      exact ⟨rfl, hrest⟩

theorem joined_eq_nil_or_cons (separator : α) (segments : List (List α)) :
    joined separator segments = [] ∨ ∃ behind, joined separator segments = separator :: behind := by
  cases segments with
  | nil => exact .inl rfl
  | cons segment segments => exact .inr ⟨_, rfl⟩

/-- The text of some segments and one more separator begins a text when the segments properly begin
its segments. -/
theorem joined_append_prefix_iff (hsegments : ∀ segment ∈ segments, separator ∉ segment)
    (hothers : ∀ segment ∈ others, separator ∉ segment) :
    joined separator segments ++ [separator] <+: joined separator others ↔
      segments <+: others ∧ segments ≠ others := by
  induction segments generalizing others with
  | nil => cases others <;> simp [cons_prefix_cons]
  | cons segment segments ih =>
    obtain ⟨hsegment, hsegments⟩ := forall_mem_cons.mp hsegments
    cases others with
    | nil => simp
    | cons other others =>
      obtain ⟨hother, hothers⟩ := forall_mem_cons.mp hothers
      have hbehind : ∃ rest, joined separator segments ++ [separator] = separator :: rest := by
        rcases joined_eq_nil_or_cons separator segments with hnil | ⟨behind, hcons⟩
        · exact ⟨[], by rw [hnil]; rfl⟩
        · exact ⟨behind ++ [separator], by rw [hcons]; rfl⟩
      have hcancel : segment ++ (joined separator segments ++ [separator]) <+:
          other ++ joined separator others ↔
            segment = other ∧ joined separator segments ++ [separator] <+: joined separator others := by
        obtain ⟨rest, hrest⟩ := hbehind
        constructor
        · rw [hrest]
          exact eq_of_append_prefix hsegment hother (joined_eq_nil_or_cons separator others)
        · rintro ⟨rfl, hbelow⟩
          exact (prefix_append_right_inj segment).mpr hbelow
      rw [joined_cons, joined_cons, cons_append, append_assoc, cons_prefix_cons,
        cons_prefix_cons, hcancel, ih hsegments hothers]
      simp only [true_and, ne_eq, cons.injEq]
      tauto

theorem takeWhile_reverse_joined [DecidableEq α] (hsegment : separator ∉ segment) :
    ((joined separator (segments ++ [segment])).reverse.takeWhile (· ≠ separator)).reverse =
      segment := by
  have hkeep : ∀ letter ∈ segment.reverse, decide (letter ≠ separator) := by
    intro letter hletter
    rw [mem_reverse] at hletter
    exact decide_eq_true fun heq ↦ hsegment (heq ▸ hletter)
  have htext : (joined separator (segments ++ [segment])).reverse =
      segment.reverse ++ separator :: (joined separator segments).reverse := by
    simp
  rw [htext, takeWhile_append_of_pos hkeep]
  simp

theorem dropWhile_reverse_joined [DecidableEq α] (hsegment : separator ∉ segment) :
    (joined separator (segments ++ [segment])).reverse.dropWhile (· ≠ separator) =
      separator :: (joined separator segments).reverse := by
  have hkeep : ∀ letter ∈ segment.reverse, decide (letter ≠ separator) := by
    intro letter hletter
    rw [mem_reverse] at hletter
    exact decide_eq_true fun heq ↦ hsegment (heq ▸ hletter)
  have htext : (joined separator (segments ++ [segment])).reverse =
      segment.reverse ++ separator :: (joined separator segments).reverse := by
    simp
  rw [htext, dropWhile_append_of_pos hkeep]
  simp

theorem intercalate_append_cons (hsegments : segments ≠ []) :
    [separator].intercalate (segments ++ other :: others) =
      [separator].intercalate segments ++ separator :: [separator].intercalate (other :: others) := by
  induction segments with
  | nil => exact absurd rfl hsegments
  | cons segment segments ih =>
    by_cases hrest : segments = []
    · rw [hrest, singleton_append, intercalate_cons_cons, intercalate_singleton,
        append_assoc, singleton_append]
    · have hmore : segments ++ other :: others ≠ [] := by simp
      rw [cons_append, intercalate_cons_of_ne_nil hmore, intercalate_cons_of_ne_nil hrest, ih hrest]
      simp only [append_assoc]

theorem intercalate_isPrefix (hbelow : segments <+: others) :
    [separator].intercalate segments <+: [separator].intercalate others := by
  obtain ⟨behind, rfl⟩ := hbelow
  by_cases hsegments : segments = []
  · rw [hsegments]
    exact nil_prefix
  · cases behind with
    | nil => exact ⟨[], by rw [append_nil, append_nil]⟩
    | cons next behind =>
      rw [intercalate_append_cons hsegments]
      exact prefix_append _ _

theorem exists_take_intercalate (separator : α) (hsegments : segments ≠ []) (count : Nat) :
    ∃ taken part whole rest, segments = taken ++ whole :: rest ∧ part <+: whole ∧
      ([separator].intercalate segments).take count = [separator].intercalate (taken ++ [part]) := by
  induction segments generalizing count with
  | nil => exact absurd rfl hsegments
  | cons segment segments ih =>
    by_cases hshort : count ≤ segment.length ∨ segments = []
    · have htake : ([separator].intercalate (segment :: segments)).take count = segment.take count := by
        rcases hshort with hcount | hrest
        · by_cases hrest : segments = []
          · rw [hrest, intercalate_singleton]
          · rw [intercalate_cons_of_ne_nil hrest, append_assoc, take_append_of_le_length hcount]
        · rw [hrest, intercalate_singleton]
      refine ⟨[], segment.take count, segment, segments, rfl, take_prefix _ _, ?_⟩
      rw [htake, nil_append, intercalate_singleton]
    · obtain ⟨hcount, hrest⟩ := not_or.mp hshort
      obtain ⟨taken, part, whole, rest, hsplit, hpart, htake⟩ := ih hrest (count - (segment.length + 1))
      have hcount : count = (segment ++ [separator]).length + (count - (segment.length + 1)) := by
        rw [length_append, length_singleton]
        omega
      refine ⟨segment :: taken, part, whole, rest, by rw [hsplit, cons_append], hpart, ?_⟩
      rw [intercalate_cons_of_ne_nil hrest, hcount, take_length_add_append,
        cons_append, intercalate_cons_of_ne_nil (by simp), htake]

end DhcpServer.Library
