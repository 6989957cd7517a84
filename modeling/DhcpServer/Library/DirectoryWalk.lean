import Mathlib.Data.List.Basic

/-!
# Walks below a ceiling

A walk goes through directories by name or one directory up, and never above the directory it may
use as its root. It fails exactly when at some point it has gone up more often than there were
directories to leave.
-/

namespace DhcpServer.Library

open List

variable {Name : Type*}

inductive Move (Name : Type*)
  | up
  | into (name : Name)

namespace Move

def isUp : Move Name → Bool
  | up => true
  | into _ => false

/-- The directory after the move; `none` where the ceiling is in the way. -/
def apply (dir : List Name) : Move Name → Option (List Name)
  | up => if dir.isEmpty then none else some dir.dropLast
  | into name => some (dir ++ [name])

end Move

def walk (dir : List Name) (moves : List (Move Name)) : Option (List Name) := moves.foldlM Move.apply dir

def ups (moves : List (Move Name)) : Nat := moves.countP Move.isUp

def intos (moves : List (Move Name)) : Nat := moves.countP (!·.isUp)

variable {dir last : List Name} {moves : List (Move Name)} {name : Name}

@[simp] theorem walk_nil : walk dir [] = some dir := rfl

@[simp] theorem walk_into : walk dir (.into name :: moves) = walk (dir ++ [name]) moves := rfl

@[simp] theorem walk_up_root : walk ([] : List Name) (.up :: moves) = none := rfl

theorem walk_up (hdir : dir ≠ []) : walk dir (.up :: moves) = walk dir.dropLast moves := by
  simp [walk, Move.apply, hdir]

@[simp] theorem ups_into : ups (.into name :: moves) = ups moves := by simp [ups, Move.isUp]

@[simp] theorem ups_up : ups (.up :: moves) = ups moves + 1 := by
  simp [ups, countP_cons, Move.isUp]

@[simp] theorem intos_into : intos (.into name :: moves) = intos moves + 1 := by
  simp [intos, Move.isUp]

@[simp] theorem intos_up : intos (.up :: moves) = intos moves := by simp [intos, Move.isUp]

/-- Some part of the walk goes up more often than there are directories to leave. -/
def TooHigh (depth : Nat) (moves : List (Move Name)) : Prop :=
  ∃ before, before <+: moves ∧ depth + intos before < ups before

theorem not_tooHigh_nil (depth : Nat) : ¬TooHigh depth ([] : List (Move Name)) := by
  rintro ⟨before, hbefore, hlt⟩
  rw [prefix_nil.mp hbefore] at hlt
  exact absurd hlt (by simp [ups])

theorem tooHigh_into (depth : Nat) : TooHigh depth (.into name :: moves) ↔ TooHigh (depth + 1) moves := by
  constructor
  · rintro ⟨before, hbefore, hlt⟩
    cases before with
    | nil => exact absurd hlt (by simp [ups])
    | cons move before =>
      obtain ⟨rfl, hrest⟩ := cons_prefix_cons.mp hbefore
      rw [intos_into, ups_into] at hlt
      exact ⟨before, hrest, by omega⟩
  · rintro ⟨before, hbefore, hlt⟩
    refine ⟨.into name :: before, cons_prefix_cons.mpr ⟨rfl, hbefore⟩, ?_⟩
    rw [intos_into, ups_into]
    omega

theorem tooHigh_up_root : TooHigh 0 (.up :: moves) :=
  ⟨[.up], cons_prefix_cons.mpr ⟨rfl, nil_prefix⟩, by simp [ups, intos, Move.isUp]⟩

theorem tooHigh_up (depth : Nat) : TooHigh (depth + 1) (.up :: moves) ↔ TooHigh depth moves := by
  constructor
  · rintro ⟨before, hbefore, hlt⟩
    cases before with
    | nil => exact absurd hlt (by simp [ups])
    | cons move before =>
      obtain ⟨rfl, hrest⟩ := cons_prefix_cons.mp hbefore
      rw [intos_up, ups_up] at hlt
      exact ⟨before, hrest, by omega⟩
  · rintro ⟨before, hbefore, hlt⟩
    refine ⟨.up :: before, cons_prefix_cons.mpr ⟨rfl, hbefore⟩, ?_⟩
    rw [intos_up, ups_up]
    omega

theorem walk_eq_none_iff : walk dir moves = none ↔ TooHigh dir.length moves := by
  induction moves generalizing dir with
  | nil => exact iff_of_false (by simp) (not_tooHigh_nil _)
  | cons move moves ih =>
    cases move with
    | into name => rw [walk_into, ih, tooHigh_into, length_append, length_singleton]
    | up =>
      by_cases hdir : dir = []
      · subst hdir
        exact iff_of_true walk_up_root tooHigh_up_root
      · have hlength : dir.length = dir.dropLast.length + 1 := by
          have hpositive := length_pos_of_ne_nil hdir
          rw [length_dropLast]
          omega
        rw [walk_up hdir, ih, hlength, tooHigh_up]

theorem forall_mem_walk {property : Name → Prop} (hdir : ∀ name ∈ dir, property name)
    (hmoves : ∀ name, .into name ∈ moves → property name) (hwalk : walk dir moves = some last) :
    ∀ name ∈ last, property name := by
  induction moves generalizing dir with
  | nil =>
    cases hwalk
    exact hdir
  | cons move moves ih =>
    have hrest : ∀ name, .into name ∈ moves → property name :=
      fun name hmem ↦ hmoves name (mem_cons_of_mem move hmem)
    cases move with
    | into first =>
      refine ih ?_ hrest hwalk
      intro name hmem
      rcases mem_append.mp hmem with hold | hnew
      · exact hdir name hold
      · rw [mem_singleton.mp hnew]
        exact hmoves first mem_cons_self
    | up =>
      by_cases hnil : dir = []
      · subst hnil
        cases hwalk
      · rw [walk_up hnil] at hwalk
        exact ih (fun name hmem ↦ hdir name (dropLast_subset dir hmem)) hrest hwalk

end DhcpServer.Library
