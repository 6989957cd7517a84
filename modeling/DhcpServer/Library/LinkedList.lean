import Mathlib.Data.List.Flatten
import Mathlib.Data.List.Perm.Basic

/-!
# Lists linked by index

A list kept in an array of cells, each with the index of the next one. `Chain` says which cells a
walk visits. Walks take fuel, because a damaged list may be cyclic; a chain needs no more fuel than
it has members. A chain is never cyclic, so its members are distinct.
-/

namespace DhcpServer.Library

open List Function

variable {Index : Type*} {next next' : Index → Option Index} {head : Option Index}
  {members before after : List Index} {index : Index}

inductive Chain (next : Index → Option Index) : Option Index → List Index → Prop
  | nil : Chain next none []
  | cons {index : Index} {members : List Index} :
      Chain next (next index) members → Chain next (some index) (index :: members)

namespace Chain

theorem unique (hchain : Chain next head members) {others : List Index}
    (hothers : Chain next head others) : members = others := by
  induction hchain generalizing others with
  | nil =>
    cases hothers
    rfl
  | cons _ ih =>
    cases hothers with
    | cons hrest => rw [ih hrest]

theorem congr (hchain : Chain next head members) (hsame : ∀ i ∈ members, next' i = next i) :
    Chain next' head members := by
  induction hchain with
  | nil => exact .nil
  | @cons index members _ ih =>
    apply Chain.cons
    rw [hsame index mem_cons_self]
    apply ih
    intro i hi
    exact hsame i (mem_cons_of_mem index hi)

theorem suffix (hchain : Chain next head (before ++ index :: after)) :
    Chain next (some index) (index :: after) := by
  induction before generalizing head with
  | nil =>
    cases hchain with
    | cons hrest => exact .cons hrest
  | cons first before ih =>
    cases hchain with
    | cons hrest => exact ih hrest

theorem nodup (hchain : Chain next head members) : members.Nodup := by
  induction hchain with
  | nil => exact nodup_nil
  | @cons index members hrest ih =>
    apply nodup_cons.mpr
    refine ⟨fun hmem ↦ ?_, ih⟩
    -- a second visit would make the rest of the walk as long as the whole
    obtain ⟨before, after, rfl⟩ := append_of_mem hmem
    have hsame : index :: after = index :: (before ++ index :: after) := (suffix hrest).unique (.cons hrest)
    have hlength := congrArg List.length hsame
    simp only [length_cons, length_append] at hlength
    omega

theorem head_eq (hchain : Chain next head members) : head = members.head? := by
  cases hchain <;> rfl

theorem tail (hchain : Chain next (some index) (index :: members)) : Chain next (next index) members := by
  cases hchain with
  | cons hrest => exact hrest

theorem push [DecidableEq Index] (hchain : Chain next head members) (hfresh : index ∉ members) :
    Chain (update next index head) (some index) (index :: members) := by
  apply Chain.cons
  rw [update_self]
  apply hchain.congr
  intro i hi
  apply update_of_ne
  rintro rfl
  exact hfresh hi

theorem unlink [DecidableEq Index] {previous : Index}
    (hchain : Chain next head (before ++ previous :: index :: after)) :
    Chain (update next previous (next index)) head (before ++ previous :: after) := by
  have hnodup := hchain.nodup
  induction before generalizing head with
  | nil =>
    obtain rfl : head = some previous := hchain.head_eq
    have hrest := hchain.tail
    have hnext : next previous = some index := hrest.head_eq
    rw [hnext] at hrest
    apply hrest.tail.push
    simp only [nil_append, nodup_cons, mem_cons, not_or] at hnodup
    exact hnodup.1.2
  | cons first before ih =>
    obtain rfl : head = some first := hchain.head_eq
    have hne : first ≠ previous := by
      rintro rfl
      simp at hnodup
    apply Chain.cons
    rw [update_of_ne hne]
    exact ih hchain.tail (nodup_cons.mp hnodup).2

end Chain

/-- The first cell that satisfies `p`, and how many cells were looked at. -/
def findFrom (next : Index → Option Index) (p : Index → Bool) :
    (fuel : Nat) → Option Index → (seen : Nat) → Option (Option Index × Nat)
  | _, none, seen => some (none, seen)
  | 0, some _, _ => none
  | fuel + 1, some index, seen =>
    if p index then some (some index, seen + 1) else findFrom next p fuel (next index) (seen + 1)

def foldFrom {Result : Type*} (next : Index → Option Index) (f : Result → Index → Result) :
    (fuel : Nat) → Option Index → Result → Option Result
  | _, none, result => some result
  | 0, some _, _ => none
  | fuel + 1, some index, result => foldFrom next f fuel (next index) (f result index)

/-- The cell before `target`, `none` when `target` comes first; the outer answer is `none` when
the walk does not meet `target`. -/
def previousFrom [DecidableEq Index] (next : Index → Option Index) (target : Index) :
    (fuel : Nat) → (previous : Option Index) → Option Index → Option (Option (Option Index))
  | _, _, none => some none
  | 0, _, some _ => none
  | fuel + 1, previous, some index =>
    if index = target then some (some previous)
    else previousFrom next target fuel (some index) (next index)

theorem Chain.findFrom (hchain : Chain next head members) (p : Index → Bool) {fuel : Nat}
    (hfuel : members.length ≤ fuel) (seen : Nat) :
    ∃ walked, Library.findFrom next p fuel head seen = some (members.find? p, walked) := by
  induction hchain generalizing fuel seen with
  | nil => exact ⟨seen, by cases fuel <;> rfl⟩
  | @cons index members _ ih =>
    cases fuel with
    | zero => simp at hfuel
    | succ fuel =>
      rw [Library.findFrom, find?_cons]
      by_cases hp : p index
      · exact ⟨seen + 1, by simp [hp]⟩
      · obtain ⟨walked, hwalk⟩ := ih (Nat.le_of_succ_le_succ hfuel) (seen + 1)
        exact ⟨walked, by simp [hp, hwalk]⟩

theorem Chain.foldFrom {Result : Type*} (hchain : Chain next head members)
    (f : Result → Index → Result) {fuel : Nat} (hfuel : members.length ≤ fuel) (result : Result) :
    Library.foldFrom next f fuel head result = some (members.foldl f result) := by
  induction hchain generalizing fuel result with
  | nil => cases fuel <;> rfl
  | @cons index members _ ih =>
    cases fuel with
    | zero => simp at hfuel
    | succ fuel =>
      rw [Library.foldFrom, foldl_cons]
      exact ih (Nat.le_of_succ_le_succ hfuel) (f result index)

theorem Chain.previousFrom [DecidableEq Index]
    (hchain : Chain next head (before ++ index :: after)) {fuel : Nat}
    (hfuel : (before ++ index :: after).length ≤ fuel) (previous : Option Index) :
    Library.previousFrom next index fuel previous head =
      some (some (before.getLast?.or previous)) := by
  have hnodup := hchain.nodup
  induction before generalizing head fuel previous with
  | nil =>
    obtain rfl : head = some index := hchain.head_eq
    cases fuel with
    | zero => simp at hfuel
    | succ fuel => simp [Library.previousFrom]
  | cons first before ih =>
    obtain rfl : head = some first := hchain.head_eq
    have hne : first ≠ index := by
      rintro rfl
      simp at hnodup
    cases fuel with
    | zero => simp at hfuel
    | succ fuel =>
      rw [Library.previousFrom, if_neg hne,
        ih hchain.tail (Nat.le_of_succ_le_succ hfuel) (some first) (nodup_cons.mp hnodup).2]
      cases before with
      | nil => rfl
      | cons second rest => simp [getLast?_cons]

/-- The cell below a cell in a stack filled from 0 upwards. -/
def below : Nat → Option Nat
  | 0 => none
  | index + 1 => some index

theorem chain_below {next : Nat → Option Nat} (count : Nat) (hnext : ∀ i < count, next i = below i) :
    Chain next (below count) (List.range count).reverse := by
  induction count with
  | zero => exact .nil
  | succ count ih =>
    rw [range_succ, reverse_append]
    apply Chain.cons
    rw [hnext count (Nat.lt_succ_self count)]
    exact ih fun i hi ↦ hnext i (Nat.lt_succ_of_lt hi)

/-- The members of the lists `0` to `count - 1`. -/
def allMembers (count : Nat) (chains : Nat → List Index) : List Index := (List.range count).flatMap chains

variable {chains : Nat → List Index}

theorem mem_allMembers {count : Nat} :
    index ∈ allMembers count chains ↔ ∃ list < count, index ∈ chains list := by
  simp [allMembers]

/-- A walk over the lists `0` to `count - 1`, one after the other. -/
def foldAll {Result : Type*} (next : Index → Option Index) (f : Nat → Result → Index → Result)
    (fuel : Nat) (heads : Nat → Option Index) (count : Nat) (result : Result) : Option Result :=
  (List.range count).foldlM (fun result list ↦ foldFrom next (f list) fuel (heads list) result)
    result

theorem foldlM_eq_some {Item Result : Type*} {f : Result → Item → Option Result}
    {g : Result → Item → Result} {items : List Item}
    (hstep : ∀ item ∈ items, ∀ result, f result item = some (g result item)) (result : Result) :
    items.foldlM f result = some (items.foldl g result) := by
  induction items generalizing result with
  | nil => rfl
  | cons item items ih =>
    rw [foldlM_cons, hstep item mem_cons_self result, foldl_cons]
    exact ih (fun other hother ↦ hstep other (mem_cons_of_mem item hother)) (g result item)

/-- The cells of the lists `0` to `count - 1` with the number of their list. -/
def visits (count : Nat) (chains : Nat → List Index) : List (Nat × Index) :=
  (List.range count).flatMap fun list ↦ (chains list).map (list, ·)

theorem mem_visits {count list : Nat} :
    (list, index) ∈ visits count chains ↔ list < count ∧ index ∈ chains list := by
  simp [visits]

theorem map_snd_visits (count : Nat) (chains : Nat → List Index) :
    (visits count chains).map Prod.snd = allMembers count chains := by
  simp [visits, allMembers, map_flatMap, comp_def]

theorem foldAll_eq {Result : Type*} {heads : Nat → Option Index}
    {count fuel : Nat} (hchains : ∀ list < count, Chain next (heads list) (chains list))
    (hfuel : ∀ list < count, (chains list).length ≤ fuel) (f : Nat → Result → Index → Result)
    (result : Result) :
    foldAll next f fuel heads count result =
      some ((visits count chains).foldl (fun result visit ↦ f visit.1 result visit.2) result) := by
  rw [visits, foldl_flatMap]
  simp only [foldl_map]
  apply foldlM_eq_some
  intro list hlist result
  have hlt : list < count := mem_range.mp hlist
  exact (hchains list hlt).foldFrom (f list) (hfuel list hlt) result

theorem foldAll_members {Result : Type*} {heads : Nat → Option Index}
    {count fuel : Nat} (hchains : ∀ list < count, Chain next (heads list) (chains list))
    (hfuel : ∀ list < count, (chains list).length ≤ fuel) (f : Result → Index → Result) (result : Result) :
    foldAll next (fun _ ↦ f) fuel heads count result = some ((allMembers count chains).foldl f result) := by
  rw [foldAll_eq hchains hfuel, ← map_snd_visits, foldl_map]

theorem allMembers_update_perm {count list : Nat} (hlist : list < count)
    {rest : List Index} (hrest : (chains list).Perm (index :: rest)) :
    (allMembers count chains).Perm
      (index :: allMembers count (update chains list rest)) := by
  obtain ⟨before, after, hrange⟩ := append_of_mem (mem_range.mpr hlist)
  have hnodup : (before ++ list :: after).Nodup := hrange ▸ nodup_range
  have hsame (part : List Nat) (hpart : list ∉ part) :
      part.flatMap (update chains list rest) = part.flatMap chains := by
    apply flatMap_congr
    intro other hother
    apply update_of_ne
    rintro rfl
    exact hpart hother
  simp only [nodup_append, nodup_cons, mem_cons] at hnodup
  have hbefore : list ∉ before := fun hmem ↦ hnodup.2.2 list hmem list (.inl rfl) rfl
  unfold allMembers
  rw [hrange]
  simp only [flatMap_append, flatMap_cons, update_self, hsame before hbefore, hsame after hnodup.2.1.1]
  have hmoved : (before.flatMap chains ++ (chains list ++ after.flatMap chains)).Perm
      (before.flatMap chains ++ (index :: (rest ++ after.flatMap chains))) :=
    (hrest.append_right _).append_left _
  exact hmoved.trans perm_middle

theorem allMembers_push_perm {count list : Nat} (hlist : list < count)
    (chains : Nat → List Index) (index : Index) :
    (allMembers count (update chains list (index :: chains list))).Perm
      (index :: allMembers count chains) := by
  have hlonger : (update chains list (index :: chains list) list).Perm
      (index :: chains list) := by
    rw [update_self]
  have hmembers := allMembers_update_perm hlist hlonger
  rwa [update_idem, update_eq_self] at hmembers

theorem mem_push {count list other : Nat} {index member : Index}
    (hfresh : index ∉ allMembers count chains) (hother : other < count)
    (hmember : member ∈ update chains list (index :: chains list) other) :
    (member = index ∧ other = list) ∨ (member ≠ index ∧ member ∈ chains other) := by
  have hne : member ∈ chains other → member ≠ index := by
    rintro hmem rfl
    exact hfresh (mem_allMembers.mpr ⟨other, hother, hmem⟩)
  by_cases hsame : other = list
  · subst hsame
    rw [update_self] at hmember
    rcases mem_cons.mp hmember with hindex | hmem
    · exact .inl ⟨hindex, rfl⟩
    · exact .inr ⟨hne hmem, hmem⟩
  · rw [update_of_ne hsame] at hmember
    exact .inr ⟨hne hmember, hmember⟩

end DhcpServer.Library
