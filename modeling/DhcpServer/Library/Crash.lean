import Mathlib.Data.List.Basic

/-!
# Interrupted lists of steps

A task carries out a list of steps one after the other and may stop at any moment: after `done` of
them, with the next one partly carried out. `partly step cut` says what `cut` units of a step leave
behind; a step that is all or nothing leaves the state as it was.
-/

namespace DhcpServer.Library

open List

variable {State Step : Type*}

structure CrashPoint where
  done : Nat
  cut : Nat := 0

def runAll (apply : Step → State → State) (steps : List Step) (state : State) : State :=
  steps.foldl (fun state step ↦ apply step state) state

/-- What is left when the task stops at `point`; a point behind the last step is the end. -/
def crashed (apply : Step → State → State) (partly : Step → Nat → State → State)
    (steps : List Step) (point : CrashPoint) (state : State) : State :=
  match steps[point.done]? with
  | none => runAll apply steps state
  | some step => partly step point.cut (runAll apply (steps.take point.done) state)

variable {apply : Step → State → State} {partly : Step → Nat → State → State}

@[simp] theorem runAll_nil (state : State) : runAll apply [] state = state := rfl

@[simp] theorem runAll_cons (step : Step) (steps : List Step) (state : State) :
    runAll apply (step :: steps) state = runAll apply steps (apply step state) := rfl

theorem runAll_append (before after : List Step) (state : State) :
    runAll apply (before ++ after) state = runAll apply after (runAll apply before state) :=
  foldl_append

variable {steps : List Step}

theorem runAll_keeps {P : State → Prop}
    (happly : ∀ step ∈ steps, ∀ state, P state → P (apply step state)) {state : State}
    (hstate : P state) : P (runAll apply steps state) := by
  induction steps generalizing state with
  | nil => exact hstate
  | cons step steps ih =>
    have hnext : P (apply step state) := happly step mem_cons_self state hstate
    exact ih (fun later hlater ↦ happly later (mem_cons_of_mem step hlater)) hnext

/-- The invariant rule: what every step keeps, whole or cut short, a crash keeps. -/
theorem crashed_keeps {P : State → Prop}
    (happly : ∀ step ∈ steps, ∀ state, P state → P (apply step state))
    (hpartly : ∀ step ∈ steps, ∀ cut state, P state → P (partly step cut state))
    {state : State} (hstate : P state) (point : CrashPoint) :
    P (crashed apply partly steps point state) := by
  rw [crashed]
  split
  · exact runAll_keeps happly hstate
  · next step hstep =>
    apply hpartly step (mem_of_getElem? hstep)
    apply runAll_keeps _ hstate
    intro earlier hearlier
    exact happly earlier (mem_of_mem_take hearlier)

variable {point : CrashPoint}

theorem crashed_append_left {before : List Step} (after : List Step)
    (hpoint : point.done < before.length) (state : State) :
    crashed apply partly (before ++ after) point state =
      crashed apply partly before point state := by
  have htake : (before ++ after).take point.done = before.take point.done :=
    take_append_of_le_length (Nat.le_of_lt hpoint)
  rw [crashed, crashed, getElem?_append_left hpoint, getElem?_eq_getElem hpoint, htake]

theorem crashed_append_right {before : List Step} (after : List Step)
    (hpoint : before.length ≤ point.done) (state : State) :
    crashed apply partly (before ++ after) point state =
      crashed apply partly after ⟨point.done - before.length, point.cut⟩
        (runAll apply before state) := by
  have htake : (before ++ after).take point.done =
      before ++ after.take (point.done - before.length) := by
    rw [take_append, take_of_length_le hpoint]
  rw [crashed, crashed, getElem?_append_right hpoint, htake]
  simp only [runAll_append]

theorem crashed_of_length_le (hpoint : steps.length ≤ point.done) (state : State) :
    crashed apply partly steps point state = runAll apply steps state := by
  rw [crashed, getElem?_eq_none hpoint]

end DhcpServer.Library
