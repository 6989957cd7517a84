import Mathlib.Data.List.Nodup

/-!
# Work lists

A loop over a queue whose body appends to the queue, as in a breadth-first walk. A visit of an item
either ends the loop with a result or leads to a new state and the items it has found. The rules: more
fuel gives the same result, the loop ends where items get deeper and cannot get too deep, a property
of queue and state that each visit keeps holds at the end, two loops can be followed in step, and no
item is visited twice where each is found by one other item.
-/

namespace DhcpServer.Library

open List Option

variable {State Item Result : Type*}

def worklist (visit : State → Item → Result ⊕ State × List Item) (finish : State → Result) :
    Nat → List Item → State → Option Result
  | 0, _, _ => none
  | _ + 1, [], state => some (finish state)
  | fuel + 1, item :: queue, state =>
    match visit state item with
    | .inl result => some result
    | .inr (state', found) => worklist visit finish fuel (queue ++ found) state'

namespace Worklist

variable {visit : State → Item → Result ⊕ State × List Item} {finish : State → Result}

variable {queue : List Item} {state : State} {result : Result}

theorem worklist_cons_inl {fuel : Nat} {item : Item}
    (hvisit : visit state item = .inl result) :
    worklist visit finish (fuel + 1) (item :: queue) state = some result := by
  rw [worklist, hvisit]

theorem worklist_cons_inr {fuel : Nat} {item : Item} {queue found : List Item}
    {state state' : State} (hvisit : visit state item = .inr (state', found)) :
    worklist visit finish (fuel + 1) (item :: queue) state =
      worklist visit finish fuel (queue ++ found) state' := by
  rw [worklist, hvisit]

theorem mono {fuel more : Nat}
    (hresult : worklist visit finish fuel queue state = some result) (hmore : fuel ≤ more) :
    worklist visit finish more queue state = some result := by
  induction fuel generalizing more queue state with
  | zero => cases hresult
  | succ fuel ih =>
    cases more with
    | zero => omega
    | succ more =>
      cases queue with
      | nil => exact hresult
      | cons item queue =>
        cases hvisit : visit state item with
        | inl same =>
          rw [worklist_cons_inl hvisit] at hresult ⊢
          exact hresult
        | inr next =>
          obtain ⟨state', found⟩ := next
          rw [worklist_cons_inr hvisit] at hresult ⊢
          exact ih hresult (by omega)

/-- A computation on fuel ends, and more fuel does not change how. -/
def Settles {Answer : Type*} (compute : Nat → Option Answer) : Prop :=
  ∃ fuel answer, ∀ more, fuel ≤ more → compute more = some answer

namespace Settles

variable {Answer Next : Type*} {compute : Nat → Option Answer}

theorem pure (answer : Answer) : Settles fun _ ↦ some answer := ⟨0, answer, fun _ _ ↦ rfl⟩

theorem bind {next : Answer → Nat → Option Next} (hcompute : Settles compute)
    (hnext : ∀ fuel answer, compute fuel = some answer → Settles (next answer)) :
    Settles fun fuel ↦ (compute fuel).bind fun answer ↦ next answer fuel := by
  obtain ⟨fuel, answer, hanswer⟩ := hcompute
  obtain ⟨fuel', result, hresult⟩ := hnext fuel answer (hanswer fuel (Nat.le_refl fuel))
  refine ⟨max fuel fuel', result, fun more hmore ↦ ?_⟩
  have hfirst : compute more = some answer := hanswer more (by omega)
  have hsecond : next answer more = some result := hresult more (by omega)
  dsimp only
  rw [hfirst, bind_some, hsecond]

theorem map (hcompute : Settles compute) (next : Answer → Next) :
    Settles fun fuel ↦ (compute fuel).map next := by
  obtain ⟨fuel, answer, hanswer⟩ := hcompute
  refine ⟨fuel, next answer, fun more hmore ↦ ?_⟩
  dsimp only
  rw [hanswer more hmore, map_some]

theorem foldlM {round : Nat → State → Item → Option State} {kept : State → Prop} {items : List Item}
    (hround : ∀ state, kept state → ∀ item, Settles fun fuel ↦ round fuel state item)
    (hkept : ∀ fuel state item state', kept state → round fuel state item = some state' → kept state')
    (state : State) (hstate : kept state) :
    Settles fun fuel ↦ items.foldlM (round fuel) state := by
  induction items generalizing state with
  | nil => exact pure state
  | cons item items ih =>
    have hrest : ∀ fuel state', round fuel state item = some state' →
        Settles fun fuel ↦ items.foldlM (round fuel) state' :=
      fun fuel state' hstate' ↦ ih state' (hkept fuel state item state' hstate hstate')
    simp only [foldlM_cons, bind_eq_bind]
    exact (hround state hstate item).bind hrest

end Settles

section Termination

-- `good depth item`: the item can be found, at this depth
variable {kept : State → Prop} {good : Nat → Item → Prop} {limit : Nat}

theorem exists_of_deep (hdeeper : ∀ depth state item state' found, kept state → good depth item →
      visit state item = .inr (state', found) →
        kept state' ∧ ∀ next ∈ found, ∃ deeper, depth < deeper ∧ deeper ≤ limit ∧ good deeper next)
    (queue : List Item) (state : State) (hkept : kept state)
    (hqueue : ∀ item ∈ queue, ∃ depth, limit ≤ depth ∧ good depth item) :
    ∃ fuel result, worklist visit finish fuel queue state = some result := by
  induction queue generalizing state with
  | nil => exact ⟨1, finish state, rfl⟩
  | cons item queue ih =>
    obtain ⟨⟨depth, hlimit, hgood⟩, hqueue⟩ := forall_mem_cons.mp hqueue
    cases hvisit : visit state item with
    | inl result => exact ⟨1, result, worklist_cons_inl hvisit⟩
    | inr next =>
      obtain ⟨state', found⟩ := next
      obtain ⟨hkept', hfound⟩ := hdeeper depth state item state' found hkept hgood hvisit
      have hnone : found = [] := by
        rw [eq_nil_iff_forall_not_mem]
        intro next hnext
        obtain ⟨deeper, hless, hle, -⟩ := hfound next hnext
        omega
      obtain ⟨fuel, result, hresult⟩ := ih state' hkept' hqueue
      refine ⟨fuel + 1, result, ?_⟩
      rw [worklist_cons_inr hvisit, hnone, append_nil]
      exact hresult

/-- The loop ends: what a visit finds is deeper, and nothing is found beyond the limit. The induction
is on the levels that are left and, within a level, on the items of that level. -/
theorem exists_result (hdeeper : ∀ depth state item state' found, kept state → good depth item →
      visit state item = .inr (state', found) →
        kept state' ∧ ∀ next ∈ found, ∃ deeper, depth < deeper ∧ deeper ≤ limit ∧ good deeper next)
    (levels : Nat) (queue : List Item) (state : State) (hkept : kept state)
    (hqueue : ∀ item ∈ queue, ∃ depth, limit ≤ depth + levels ∧ good depth item) :
    ∃ fuel result, worklist visit finish fuel queue state = some result := by
  induction levels generalizing queue state with
  | zero => exact exists_of_deep hdeeper queue state hkept hqueue
  | succ levels ih =>
    have hlevel : ∀ first rest state, kept state →
        (∀ item ∈ first, ∃ depth, limit ≤ depth + (levels + 1) ∧ good depth item) →
        (∀ item ∈ rest, ∃ depth, limit ≤ depth + levels ∧ good depth item) →
        ∃ fuel result, worklist visit finish fuel (first ++ rest) state = some result := by
      intro first
      induction first with
      | nil => exact fun rest state hkept _ hrest ↦ ih rest state hkept hrest
      | cons item first ihfirst =>
        intro rest state hkept hfirst hrest
        obtain ⟨⟨depth, hlimit, hgood⟩, hfirst⟩ := forall_mem_cons.mp hfirst
        cases hvisit : visit state item with
        | inl result => exact ⟨1, result, worklist_cons_inl hvisit⟩
        | inr next =>
          obtain ⟨state', found⟩ := next
          obtain ⟨hkept', hdeep⟩ := hdeeper depth state item state' found hkept hgood hvisit
          have hfound : ∀ next ∈ found, ∃ depth, limit ≤ depth + levels ∧ good depth next := by
            intro next hnext
            obtain ⟨deeper, hless, -, hgood'⟩ := hdeep next hnext
            exact ⟨deeper, by omega, hgood'⟩
          obtain ⟨fuel, result, hresult⟩ := ihfirst (rest ++ found) state' hkept' hfirst
            (forall_mem_append.mpr ⟨hrest, hfound⟩)
          refine ⟨fuel + 1, result, ?_⟩
          rw [cons_append, worklist_cons_inr hvisit, append_assoc]
          exact hresult
    simpa using hlevel queue [] state hkept hqueue (by simp)

theorem settles (kept : State → Prop) (good : Nat → Item → Prop) (limit : Nat)
    (hdeeper : ∀ depth state item state' found, kept state → good depth item →
      visit state item = .inr (state', found) →
        kept state' ∧ ∀ next ∈ found, ∃ deeper, depth < deeper ∧ deeper ≤ limit ∧ good deeper next)
    (queue : List Item) (state : State) (hkept : kept state)
    (hqueue : ∀ item ∈ queue, ∃ depth, good depth item) :
    Settles fun fuel ↦ worklist visit finish fuel queue state := by
  have hlevels : ∀ item ∈ queue, ∃ depth, limit ≤ depth + limit ∧ good depth item := by
    intro item hitem
    obtain ⟨depth, hgood⟩ := hqueue item hitem
    exact ⟨depth, by omega, hgood⟩
  obtain ⟨fuel, result, hresult⟩ := exists_result hdeeper limit queue state hkept hlevels
  exact ⟨fuel, result, fun more hmore ↦ mono hresult hmore⟩

end Termination

/-- The rule for a loop over a list. -/
theorem foldlM_invariant {round : State → Item → Option State} (inv : State → Prop) {items : List Item}
    (hround : ∀ state item next, inv state → item ∈ items → round state item = some next → inv next)
    {state last : State} (hlast : items.foldlM round state = some last) (hinv : inv state) : inv last := by
  induction items generalizing state with
  | nil =>
    cases hlast
    exact hinv
  | cons item items ih =>
    rw [foldlM_cons] at hlast
    obtain ⟨next, hnext, hrest⟩ := bind_eq_some_iff.mp hlast
    refine ih (fun state item next hinv hitem ↦ ?_) hrest
      (hround state item next hinv mem_cons_self hnext)
    exact hround state item next hinv (mem_cons_of_mem _ hitem)

theorem invariant (inv : List Item → State → Prop) (post : Result → Prop)
    (hvisit : ∀ item queue state state' found, inv (item :: queue) state →
      visit state item = .inr (state', found) → inv (queue ++ found) state')
    (hstop : ∀ item queue state result, inv (item :: queue) state →
      visit state item = .inl result → post result)
    (hfinish : ∀ state, inv [] state → post (finish state))
    {fuel : Nat}
    (hresult : worklist visit finish fuel queue state = some result) (hinv : inv queue state) :
    post result := by
  induction fuel generalizing queue state with
  | zero => cases hresult
  | succ fuel ih =>
    cases queue with
    | nil =>
      cases hresult
      exact hfinish state hinv
    | cons item queue =>
      cases hnext : visit state item with
      | inl same =>
        rw [worklist_cons_inl hnext] at hresult
        obtain rfl := Option.some.inj hresult
        exact hstop item queue state same hinv hnext
      | inr next =>
        obtain ⟨state', found⟩ := next
        rw [worklist_cons_inr hnext] at hresult
        exact ih hresult (hvisit item queue state state' found hinv hnext)

theorem exists_related {Item' : Type*} {related : Item → Item' → Prop}
    {queue' : List Item'} (hqueue : List.Forall₂ related queue queue') :
    ∀ item' ∈ queue', ∃ item, related item item' := by
  induction hqueue with
  | nil => simp
  | cons hitem hqueue ih => exact forall_mem_cons.mpr ⟨⟨_, hitem⟩, ih⟩

/-- The rule for two loops that find related items in the same order. `alive` is what is known of the
second loop where it ends well, as long as its items are good. -/
theorem lockstep {State' Item' Result' : Type*}
    {visit' : State' → Item' → Result' ⊕ State' × List Item'} {finish' : State' → Result'}
    (related : Item → Item' → Prop) (inv : State → State' → Prop) (alive : State' → Prop)
    (well : Result → Prop) (well' : Result' → Prop) (post : Result → Result' → Prop)
    (halive : ∀ fuel queue state result, (∀ item' ∈ queue, ∃ item, related item item') →
      worklist visit' finish' fuel queue state = some result → well' result → alive state)
    (hvisit : ∀ item item' state state' next next' found found', related item item' →
      inv state state' → visit state item = .inr (next, found) →
      visit' state' item' = .inr (next', found') → alive next' →
      inv next next' ∧ List.Forall₂ related found found')
    (hgood : ∀ item item' state next found, related item item' → visit' state item' = .inr (next, found) →
      ∀ next' ∈ found, ∃ next, related next next')
    (hstop : ∀ state item result, visit state item = .inl result → ¬well result)
    (hstop' : ∀ state item result, visit' state item = .inl result → ¬well' result)
    (hfinish : ∀ state state', inv state state' → post (finish state) (finish' state'))
    {fuel fuel' : Nat} {queue' : List Item'} {state' : State'}
    {result' : Result'}
    (hqueue : List.Forall₂ related queue queue') (hinv : inv state state')
    (hresult : worklist visit finish fuel queue state = some result)
    (hresult' : worklist visit' finish' fuel' queue' state' = some result')
    (hwell : well result) (hwell' : well' result') : post result result' := by
  induction fuel generalizing fuel' queue queue' state state' with
  | zero => cases hresult
  | succ fuel ih =>
    cases fuel' with
    | zero => cases hresult'
    | succ fuel' =>
      cases hqueue with
      | nil =>
        cases hresult
        obtain rfl := Option.some.inj hresult'
        exact hfinish state state' hinv
      | @cons item item' queue queue' hitem hqueue =>
        cases hfirst : visit state item with
        | inl same =>
          rw [worklist_cons_inl hfirst] at hresult
          obtain rfl := Option.some.inj hresult
          exact absurd hwell (hstop state item same hfirst)
        | inr step =>
          obtain ⟨next, found⟩ := step
          rw [worklist_cons_inr hfirst] at hresult
          cases hsecond : visit' state' item' with
          | inl same =>
            rw [worklist_cons_inl hsecond] at hresult'
            obtain rfl := Option.some.inj hresult'
            exact absurd hwell' (hstop' state' item' same hsecond)
          | inr step' =>
            obtain ⟨next', found'⟩ := step'
            rw [worklist_cons_inr hsecond] at hresult'
            have hlater : ∀ item' ∈ queue' ++ found', ∃ item, related item item' := by
              exact forall_mem_append.mpr ⟨exists_related hqueue, hgood _ _ _ _ _ hitem hsecond⟩
            have hnext := halive _ _ _ _ hlater hresult' hwell'
            obtain ⟨hinv', hfound⟩ :=
              hvisit item item' state state' next next' found found' hitem hinv hfirst hsecond hnext
            exact ih (rel_append hqueue hfound) hinv' hresult hresult'

theorem coupled {State' Result' : Type*} {visit' : State' → Item → Result' ⊕ State' × List Item}
    {finish' : State' → Result'} (related : State → State' → Prop) (post : Result → Result' → Prop)
    (hvisit : ∀ item state state', related state state' →
      Sum.LiftRel post (fun next next' ↦ related next.1 next'.1 ∧ next.2 = next'.2)
        (visit state item) (visit' state' item))
    (hfinish : ∀ state state', related state state' → post (finish state) (finish' state'))
    (fuel : Nat) (queue : List Item) {state' : State'} (hstate : related state state') :
    Option.Rel post (worklist visit finish fuel queue state) (worklist visit' finish' fuel queue state') := by
  induction fuel generalizing queue state state' with
  | zero => exact .none
  | succ fuel ih =>
    cases queue with
    | nil => exact .some (hfinish state state' hstate)
    | cons item queue =>
      have hstep := hvisit item state state' hstate
      rw [worklist, worklist]
      generalize visit state item = step, visit' state' item = step' at hstep ⊢
      cases hstep with
      | inl hresult => exact .some hresult
      | inr hnext =>
        obtain ⟨hnext, hfound⟩ := hnext
        dsimp only
        rw [hfound]
        exact ih _ hnext

section Options

variable {Value Value' Image Image' : Type*} {related : Value → Value' → Prop} {post : Image → Image' → Prop}
  {answer : Option Value} {answer' : Option Value'}

theorem map_coupled {view : Value → Image} {view' : Value' → Image'}
    (hanswer : Option.Rel related answer answer')
    (hview : ∀ value value', related value value' → post (view value) (view' value')) :
    Option.Rel post (answer.map view) (answer'.map view') := by
  cases hanswer with
  | none => exact .none
  | some hvalue => exact .some (hview _ _ hvalue)

theorem bind_coupled {next : Value → Option Image} {next' : Value' → Option Image'}
    (hanswer : Option.Rel related answer answer')
    (hnext : ∀ value value', related value value' → Option.Rel post (next value) (next' value')) :
    Option.Rel post (answer.bind next) (answer'.bind next') := by
  cases hanswer with
  | none => exact .none
  | some hvalue => exact hnext _ _ hvalue

end Options

theorem foldlM_coupled {State' : Type*} {round : State → Item → Option State}
    {round' : State' → Item → Option State'} (related : State → State' → Prop)
    (hround : ∀ item state state', related state state' →
      Option.Rel related (round state item) (round' state' item))
    (items : List Item) {state' : State'} (hstate : related state state') :
    Option.Rel related (items.foldlM round state) (items.foldlM round' state') := by
  induction items generalizing state state' with
  | nil => exact .some hstate
  | cons item items ih =>
    rw [foldlM_cons, foldlM_cons]
    exact bind_coupled (hround item state state' hstate) fun _ _ hnext ↦ ih hnext

/-- No item has been queued twice, and what was found was found by an item visited before. -/
structure FoundOnce (finder : Item → Option Item) (visited queue : List Item) : Prop where
  nodup : (visited ++ queue).Nodup
  found : ∀ item ∈ visited ++ queue, ∀ earlier, finder item = some earlier → earlier ∈ visited

theorem FoundOnce.step {finder : Item → Option Item} {visited queue found : List Item} {item : Item}
    (honce : FoundOnce finder visited (item :: queue)) (hnodup : found.Nodup)
    (hfinder : ∀ next ∈ found, finder next = some item) :
    FoundOnce finder (visited ++ [item]) (queue ++ found) := by
  have hsame : visited ++ [item] ++ (queue ++ found) = (visited ++ item :: queue) ++ found := by
    simp
  refine ⟨?_, ?_⟩
  · rw [hsame, nodup_append']
    refine ⟨honce.nodup, hnodup, ?_⟩
    intro next hold hnew
    have hvisited := honce.found next hold item (hfinder next hnew)
    have hdisjoint := disjoint_of_nodup_append honce.nodup
    exact hdisjoint hvisited mem_cons_self
  · rw [hsame]
    intro next hnext earlier hearlier
    rcases mem_append.mp hnext with hold | hnew
    · exact mem_append_left _ (honce.found next hold earlier hearlier)
    · rw [hfinder next hnew] at hearlier
      cases hearlier
      exact mem_append_right _ (mem_singleton_self item)

end Worklist

end DhcpServer.Library
