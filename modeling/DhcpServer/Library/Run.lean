import Mathlib.Logic.Relation
import Mathlib.Tactic.Basic

/-!
# Runs of a labelled transition system

A system is a step relation `step state event state'`. A run is the list of events it went
through, oldest first. The rules below are the only ones a client needs: runs split at every
event, a property kept by each step is kept by a run, and a weaker step relation accepts every
run of a stronger one.
-/

namespace DhcpServer.Library

open List

variable {State Event : Type*}

inductive Run (step : State → Event → State → Prop) : State → List Event → State → Prop
  | nil (state : State) : Run step state [] state
  | cons {first middle last : State} {event : Event} {events : List Event} :
      step first event middle → Run step middle events last →
      Run step first (event :: events) last

namespace Run

variable {step : State → Event → State → Prop}

theorem split {first last : State} {before after : List Event}
    (hrun : Run step first (before ++ after) last) :
    ∃ middle, Run step first before middle ∧ Run step middle after last := by
  induction before generalizing first with
  | nil => exact ⟨first, .nil first, hrun⟩
  | cons event before ih =>
    cases hrun with
    | cons hstep htail =>
      obtain ⟨middle, hleft, hright⟩ := ih htail
      exact ⟨middle, .cons hstep hleft, hright⟩

theorem append {first middle last : State} {before after : List Event}
    (hbefore : Run step first before middle) (hafter : Run step middle after last) :
    Run step first (before ++ after) last := by
  induction hbefore with
  | nil => exact hafter
  | cons hstep _ ih => exact .cons hstep (ih hafter)

theorem uncons {first last : State} {event : Event} {events : List Event}
    (hrun : Run step first (event :: events) last) :
    ∃ middle, step first event middle ∧ Run step middle events last := by
  cases hrun with
  | cons hstep htail => exact ⟨_, hstep, htail⟩

/-- The invariant rule. `allowed` is what is known of the events of this particular run. -/
theorem invariant {inv : State → Prop} {allowed : Event → Prop}
    (hkeep : ∀ state event state', allowed event → inv state → step state event state' → inv state')
    {first last : State} {events : List Event} (hrun : Run step first events last)
    (hallowed : ∀ event ∈ events, allowed event) (hfirst : inv first) : inv last := by
  induction hrun with
  | nil => exact hfirst
  | @cons first middle last event events hstep _ ih =>
    have hmiddle : inv middle := hkeep first event middle (hallowed event mem_cons_self) hfirst hstep
    exact ih (fun later hlater ↦ hallowed later (mem_cons_of_mem event hlater)) hmiddle

/-- The invariant rule for a property that every step keeps. -/
theorem preserves {inv : State → Prop}
    (hkeep : ∀ state event state', inv state → step state event state' → inv state')
    {first last : State} {events : List Event} (hrun : Run step first events last)
    (hfirst : inv first) : inv last := by
  have hkeep' : ∀ state event state', True → inv state → step state event state' → inv state' :=
    fun state event state' _ hinv hstep ↦ hkeep state event state' hinv hstep
  exact hrun.invariant hkeep' (fun _ _ ↦ trivial) hfirst

/-- The invariant rule for a property of the state and of all events so far. -/
theorem history {inv : List Event → State → Prop}
    (hkeep : ∀ before event state state', inv before state → step state event state' →
      inv (before ++ [event]) state')
    {before : List Event} {first last : State} {events : List Event}
    (hrun : Run step first events last) (hfirst : inv before first) :
    inv (before ++ events) last := by
  induction hrun generalizing before with
  | nil => rwa [append_nil]
  | @cons first middle last event events hstep _ ih =>
    have hmiddle : inv (before ++ [event]) middle := hkeep before event first middle hfirst hstep
    simpa using ih hmiddle

theorem mono {weaker : State → Event → State → Prop}
    (hweaker : ∀ state event state', step state event state' → weaker state event state')
    {first last : State} {events : List Event} (hrun : Run step first events last) :
    Run weaker first events last := by
  induction hrun with
  | nil state => exact .nil state
  | cons hstep _ ih => exact .cons (hweaker _ _ _ hstep) ih

theorem guarded {allowed : State → Event → Prop} {first last : State} {events : List Event}
    (hrun : Run step first events last) (hallowed : ∀ event ∈ events, ∀ state, allowed state event) :
    Run (fun state event state' ↦ allowed state event ∧ step state event state') first events last := by
  induction hrun with
  | nil state => exact .nil state
  | @cons first middle last event events hstep _ ih =>
    have hrest := ih fun later hlater ↦ hallowed later (mem_cons_of_mem event hlater)
    exact .cons ⟨hallowed event mem_cons_self first, hstep⟩ hrest

end Run

/-- A step function that may refuse an event, over a list of events. -/
def steps (step : State → Event → Option State) (state : State) (events : List Event) : Option State :=
  events.foldlM step state

theorem steps_append (step : State → Event → Option State) (state : State)
    (before after : List Event) :
    steps step state (before ++ after) =
      (steps step state before).bind fun middle ↦ steps step middle after :=
  foldlM_append

theorem steps_cons {step : State → Event → Option State} {first middle : State} {event : Event}
    (hstep : step first event = some middle) (events : List Event) :
    steps step first (event :: events) = steps step middle events := by
  rw [steps, foldlM_cons, hstep]
  rfl

theorem run_of_steps {step : State → Event → Option State} {first last : State}
    {events : List Event} (hsteps : steps step first events = some last) :
    Run (fun state event state' ↦ step state event = some state') first events last := by
  induction events generalizing first with
  | nil =>
    obtain rfl := Option.some.inj hsteps
    exact .nil first
  | cons event events ih =>
    rw [steps, foldlM_cons] at hsteps
    obtain ⟨middle, hstep, hrest⟩ := Option.bind_eq_some_iff.mp hsteps
    exact .cons hstep (ih hrest)

theorem run_of_allowedSteps {step : State → Event → Option State} {allowed : State → Event → Prop}
    [∀ state event, Decidable (allowed state event)] {first last : State} {events : List Event}
    (hsteps : steps (fun state event ↦ if allowed state event then step state event else none) first
      events = some last) :
    Run (fun state event state' ↦ allowed state event ∧ step state event = some state') first events
      last := by
  apply (run_of_steps hsteps).mono
  intro state event state' hstep
  by_cases hallowed : allowed state event
  · rw [if_pos hallowed] at hstep
    exact ⟨hallowed, hstep⟩
  · rw [if_neg hallowed] at hstep
    cases hstep

theorem exists_run_of_any {step : State → Event → Option State} {first : State} {events : List Event}
    {test : State → Bool} (hany : (steps step first events).any test) :
    ∃ last, Run (fun state event state' ↦ step state event = some state') first events last ∧
      test last := by
  obtain ⟨last, hsteps, htest⟩ := (Option.any_eq_true _ _).mp hany
  exact ⟨last, run_of_steps hsteps, htest⟩

/-- Where a good state refuses no event and stays good, every list of events can be gone
through. -/
theorem exists_steps {step : State → Event → Option State} {inv : State → Prop}
    (hkeep : ∀ state event, inv state → ∃ state', step state event = some state' ∧ inv state')
    {first : State} (hfirst : inv first) (events : List Event) :
    ∃ last, steps step first events = some last ∧ inv last := by
  induction events generalizing first with
  | nil => exact ⟨first, rfl, hfirst⟩
  | cons event events ih =>
    obtain ⟨middle, hstep, hmiddle⟩ := hkeep first event hfirst
    obtain ⟨last, hrest, hlast⟩ := ih hmiddle
    refine ⟨last, ?_, hlast⟩
    rw [steps, foldlM_cons, hstep]
    exact hrest

/-- Every event of a list is allowed in the state the ones before it lead to. -/
def AllowedAlong (next : State → Event → State) (allowed : State → Event → Prop) : State → List Event → Prop
  | _, [] => True
  | state, event :: events => allowed state event ∧ AllowedAlong next allowed (next state event) events

instance AllowedAlong.decidable (next : State → Event → State) (allowed : State → Event → Prop)
    [∀ state event, Decidable (allowed state event)] :
    (state : State) → (events : List Event) → Decidable (AllowedAlong next allowed state events)
  | _, [] => .isTrue trivial
  | state, event :: events =>
    have := AllowedAlong.decidable next allowed (next state event) events
    inferInstanceAs (Decidable (_ ∧ _))

theorem AllowedAlong.run {next : State → Event → State} {allowed : State → Event → Prop} {first : State}
    {events : List Event} (hallowed : AllowedAlong next allowed first events) :
    Run (fun state event state' ↦ allowed state event ∧ state' = next state event) first events
      (events.foldl next first) := by
  induction events generalizing first with
  | nil => exact .nil first
  | cons event events ih => exact .cons ⟨hallowed.1, rfl⟩ (ih hallowed.2)

end DhcpServer.Library
