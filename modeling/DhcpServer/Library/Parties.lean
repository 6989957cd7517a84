import Mathlib.Data.List.Basic

/-!
# Parties that share a state

A state that is shared, and parties with a state of their own, which are numbered in the order in
which they came. A move is one step of one party: whether it is possible depends on the party alone,
and what it does depends on the party and on what is shared.
-/

namespace DhcpServer.Library

open List

variable {Entry : Type*}

variable {entries : List Entry}

theorem getElem?_set_cases {number place : Nat}
    {old new entry : Entry} (hold : entries[number]? = some old)
    (hentry : (entries.set number new)[place]? = some entry) :
    place = number ∧ entry = new ∨ place ≠ number ∧ entries[place]? = some entry := by
  by_cases hsame : number = place
  · subst hsame
    rw [getElem?_set_self (List.getElem?_eq_some_iff.mp hold).1] at hentry
    exact .inl ⟨rfl, (Option.some.inj hentry).symm⟩
  · rw [getElem?_set_ne hsame] at hentry
    exact .inr ⟨Ne.symm hsame, hentry⟩

theorem getElem?_concat_cases {place : Nat} {new entry : Entry}
    (hentry : (entries ++ [new])[place]? = some entry) :
    entries[place]? = some entry ∨ place = entries.length ∧ entry = new := by
  rw [getElem?_append, getElem?_singleton] at hentry
  split_ifs at hentry with hlength hzero
  · exact .inl hentry
  · exact .inr ⟨by omega, (Option.some.inj hentry).symm⟩

theorem exists_getElem?_set {number place : Nat}
    {entry : Entry} (new : Entry) (hentry : entries[place]? = some entry) :
    ∃ entry', (entries.set number new)[place]? = some entry' ∧
      (place = number ∧ entry' = new ∨ place ≠ number ∧ entry' = entry) := by
  by_cases hsame : number = place
  · subst hsame
    exact ⟨new, getElem?_set_self (List.getElem?_eq_some_iff.mp hentry).1, .inl ⟨rfl, rfl⟩⟩
  · exact ⟨entry, by rw [getElem?_set_ne hsame, hentry], .inr ⟨Ne.symm hsame, rfl⟩⟩

theorem set_of_getElem? {number : Nat} {entry : Entry}
    (hentry : entries[number]? = some entry) : entries.set number entry = entries := by
  obtain ⟨hlt, rfl⟩ := List.getElem?_eq_some_iff.mp hentry
  exact set_getElem_self hlt

theorem mem_set_or_eq {number : Nat} {old new entry : Entry}
    (hold : entries[number]? = some old) (hentry : entry ∈ entries) :
    entry ∈ entries.set number new ∨ entry = old := by
  obtain ⟨place, hplace⟩ := mem_iff_getElem?.mp hentry
  by_cases hsame : number = place
  · subst hsame
    exact .inr (Option.some.inj (hplace.symm.trans hold))
  · have hkept : (entries.set number new)[place]? = some entry := by
      rw [getElem?_set_ne hsame, hplace]
    exact .inl (mem_of_getElem? hkept)

/-- Whether an entry with some property is there depends on the entry that has been replaced. -/
theorem exists_mem_set_iff {number : Nat} {old new : Entry}
    {kept : Entry → Prop} (hold : entries[number]? = some old) (hkept : kept new ↔ kept old) :
    (∃ entry ∈ entries.set number new, kept entry) ↔ ∃ entry ∈ entries, kept entry := by
  simp only [mem_iff_getElem?]
  constructor
  · rintro ⟨entry, ⟨place, hentry⟩, hentryKept⟩
    rcases getElem?_set_cases hold hentry with ⟨-, rfl⟩ | ⟨-, hother⟩
    · exact ⟨old, ⟨number, hold⟩, hkept.mp hentryKept⟩
    · exact ⟨entry, ⟨place, hother⟩, hentryKept⟩
  · rintro ⟨entry, ⟨place, hentry⟩, hentryKept⟩
    by_cases hsame : number = place
    · subst hsame
      obtain rfl := Option.some.inj (hold.symm.trans hentry)
      have hnew : (entries.set number new)[number]? = some new :=
        getElem?_set_self (List.getElem?_eq_some_iff.mp hold).1
      exact ⟨new, ⟨number, hnew⟩, hkept.mpr hentryKept⟩
    · exact ⟨entry, ⟨place, by rw [getElem?_set_ne hsame, hentry]⟩, hentryKept⟩

structure Parties (Shared Party : Type*) where
  shared : Shared
  parties : List Party

namespace Parties

variable {Shared Party Move : Type*}

def join (state : Parties Shared Party) (shared : Shared) (party : Party) : Parties Shared Party :=
  ⟨shared, state.parties ++ [party]⟩

def replace (state : Parties Shared Party) (number : Nat) (moved : Shared × Party) : Parties Shared Party :=
  ⟨moved.1, state.parties.set number moved.2⟩

def move (enabled : Party → Move → Prop) [∀ party move, Decidable (enabled party move)]
    (apply : Shared → Party → Move → Shared × Party) (state : Parties Shared Party) (number : Nat)
    (move : Move) : Option (Parties Shared Party) :=
  match state.parties[number]? with
  | none => none
  | some party =>
    if enabled party move then some (state.replace number (apply state.shared party move)) else none

theorem move_eq_some_iff {enabled : Party → Move → Prop}
    [∀ party move, Decidable (enabled party move)]
    {apply : Shared → Party → Move → Shared × Party} {state state' : Parties Shared Party}
    {number : Nat} {move : Move} :
    state.move enabled apply number move = some state' ↔
      ∃ party, state.parties[number]? = some party ∧ enabled party move ∧
        state' = state.replace number (apply state.shared party move) := by
  rw [Parties.move]
  cases hparty : state.parties[number]? with
  | none => simp
  | some party =>
    by_cases henabled : enabled party move
    · simp [henabled, eq_comm]
    · simp [henabled]

variable {state : Parties Shared Party} {number place : Nat} {party other : Party}
  {moved : Shared × Party} {kept : Party → Prop}

theorem mem_replace (hother : other ∈ (state.replace number moved).parties) :
    other ∈ state.parties ∨ other = moved.2 :=
  mem_or_eq_of_mem_set hother

section

variable (hparty : state.parties[number]? = some party)
include hparty

theorem moved_mem_replace : moved.2 ∈ (state.replace number moved).parties :=
  mem_set (List.getElem?_eq_some_iff.mp hparty).1 moved.2

theorem getElem?_replace (hother : (state.replace number moved).parties[place]? = some other) :
    place = number ∧ other = moved.2 ∨ place ≠ number ∧ state.parties[place]? = some other :=
  getElem?_set_cases hparty hother

theorem mem_replace_or_eq
    (hother : other ∈ state.parties) : other ∈ (state.replace number moved).parties ∨ other = party :=
  mem_set_or_eq hparty hother

theorem exists_mem_replace
    (hmoved : kept party → kept moved.2) (hexists : ∃ other ∈ state.parties, kept other) :
    ∃ other ∈ (state.replace number moved).parties, kept other := by
  obtain ⟨other, hother, hkept⟩ := hexists
  rcases mem_replace_or_eq hparty hother with hstill | rfl
  · exact ⟨other, hstill, hkept⟩
  · exact ⟨moved.2, moved_mem_replace hparty, hmoved hkept⟩

end

theorem forall_mem_replace (hothers : ∀ other ∈ state.parties, kept other) (hmoved : kept moved.2) :
    ∀ other ∈ (state.replace number moved).parties, kept other := by
  intro other hother
  rcases mem_replace hother with hold | rfl
  · exact hothers other hold
  · exact hmoved

theorem forall_mem_join {shared : Shared} (hothers : ∀ other ∈ state.parties, kept other)
    (hnew : kept party) : ∀ other ∈ (state.join shared party).parties, kept other := by
  intro other hother
  rcases mem_append.mp hother with hold | hlast
  · exact hothers other hold
  · rwa [mem_singleton.mp hlast]

theorem exists_mem_join {shared : Shared} (hexists : ∃ other ∈ state.parties, kept other) :
    ∃ other ∈ (state.join shared party).parties, kept other := by
  obtain ⟨other, hother, hkept⟩ := hexists
  exact ⟨other, mem_append_left _ hother, hkept⟩

theorem getElem?_join {shared : Shared}
    (hother : (state.join shared party).parties[place]? = some other) :
    state.parties[place]? = some other ∨ place = state.parties.length ∧ other = party :=
  getElem?_concat_cases hother

end Parties

end DhcpServer.Library
