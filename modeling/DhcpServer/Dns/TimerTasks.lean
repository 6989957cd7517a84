import DhcpServer.Library.Run
import Mathlib.Logic.Function.Basic
import Mathlib.Tactic.SplitIfs

/-!
# The tasks of the timers

`configure` and the tasks it creates share `enabled_` and `task_`. A task that finds its timer off clears the
handle in a later step. Whoever switches the timer on in between takes the handle for that of a task that goes
on.
-/

namespace DhcpServer.Dns.TimerTasks

open Library Function

inductive Timer
  | cacheAutosave | statsAutosave | cacheAutoUpdate
deriving DecidableEq

/-- What a call of `configure` does next. -/
inductive Caller
  | idle | looking | creating | storing (handle : Nat) | failing
deriving DecidableEq

/-- `leaving` is a task that has found the timer off, `cleared` one that has not returned yet. -/
inductive Phase
  | unborn | counting | leaving | cleared | gone
deriving DecidableEq

/-- Handles are numbered; nothing in the code compares them. -/
structure State where
  enabled : Bool := false
  task : Option Nat := none
  caller : Caller := .idle
  created : Nat := 0
  tasks : Nat → Phase := fun _ ↦ .unborn

/-- The accesses of a configure call, `switchOff` and `switchOn` its first ones, and those of a task. -/
inductive Event
  | switchOff | switchOn | look | create | createFails | store | giveUp
  | test (task : Nat) | clear (task : Nat) | finish (task : Nat)
  /-- a stop from the scheduler page, which the autosave tasks carry out -/
  | stop (task : Nat)

def State.move (state : State) (task : Nat) (phase : Phase) : State :=
  { state with tasks := update state.tasks task phase }

def step (timer : Timer) (state : State) : Event → Option State
  | .switchOff => if state.caller = .idle then some { state with enabled := false } else none
  | .switchOn =>
    if state.caller = .idle then some { state with enabled := true, caller := .looking } else none
  | .look =>
    if state.caller = .looking then
      some { state with caller := if state.task = none then .creating else .idle }
    else none
  | .create =>
    if state.caller = .creating then
      some { state.move state.created .counting with
        created := state.created + 1, caller := .storing state.created }
    else none
  | .createFails => if state.caller = .creating then some { state with caller := .failing } else none
  | .store =>
    match state.caller with
    | .storing handle => some { state with task := some handle, caller := .idle }
    | _ => none
  | .giveUp =>
    if state.caller = .failing then some { state with enabled := false, caller := .idle } else none
  | .test task =>
    if state.tasks task = .counting then some (if state.enabled then state else state.move task .leaving)
    else none
  | .clear task =>
    if state.tasks task = .leaving then some { state.move task .cleared with task := none } else none
  | .finish task => if state.tasks task = .cleared then some (state.move task .gone) else none
  | .stop task =>
    if timer ≠ .cacheAutoUpdate ∧ state.tasks task = .counting then some { state with enabled := false }
    else none

def Step (timer : Timer) (state : State) (event : Event) (state' : State) : Prop :=
  step timer state event = some state'

def Phase.Alive (phase : Phase) : Prop := phase = .counting ∨ phase = .leaving ∨ phase = .cleared

/-- No configure is in progress, and no task is between its test of `enabled_` and its return. -/
def State.Quiet (state : State) : Prop :=
  state.caller = .idle ∧ ∀ task, state.tasks task ≠ .leaving ∧ state.tasks task ≠ .cleared

def Served (state : State) : Prop :=
  state.Quiet → state.enabled = true → state.task ≠ none ∧ ∃! task, (state.tasks task).Alive

/-- No configure looks at the handle while a task is leaving, and no task clears the handle while a configure
holds that of a task it has created. -/
def Careful (state : State) : Event → Prop
  | .look => ∀ task, state.tasks task ≠ .leaving
  | .clear _ => ∀ handle, state.caller ≠ .storing handle
  | _ => True

/-- The handle of the task that goes on, whoever keeps it. -/
def State.held (state : State) : Option Nat :=
  match state.caller with
  | .storing handle => some handle
  | _ => state.task

structure Owned (state : State) : Prop where
  fresh : ∀ task, state.created ≤ task → state.tasks task = .unborn
  holds : ∀ task, state.tasks task = .counting ∨ state.tasks task = .leaving ↔ state.held = some task
  empty : state.caller = .creating → state.task = none
  leaving : ∀ task, state.tasks task = .leaving → state.enabled = false ∨ state.caller = .looking
  served : state.caller = .idle → state.enabled = true → state.task ≠ none

variable {timer : Timer} {state state' : State}

theorem move_self (task : Nat) (phase : Phase) : (state.move task phase).tasks task = phase :=
  update_self _ _ _

theorem move_of_ne {task other : Nat} (hother : other ≠ task) (phase : Phase) :
    (state.move task phase).tasks other = state.tasks other :=
  update_of_ne hother _ _

theorem Owned.move (howned : Owned state) {task : Nat} {phase : Phase} (hborn : task < state.created)
    (hactive : state.tasks task = .counting ∨ state.tasks task = .leaving ↔
      phase = .counting ∨ phase = .leaving)
    (hleaving : phase = .leaving → state.enabled = false) : Owned (state.move task phase) where
  fresh other hother := by
    have hother : state.created ≤ other := hother
    rw [move_of_ne (by omega)]
    exact howned.fresh other hother
  holds other := by
    rw [show (state.move task phase).held = state.held from rfl, ← howned.holds other]
    by_cases hsame : other = task
    · rw [hsame, hactive, move_self]
    · rw [move_of_ne hsame]
  empty := howned.empty
  leaving other hother := by
    by_cases hsame : other = task
    · rw [hsame, move_self] at hother
      exact .inl (hleaving hother)
    · rw [move_of_ne hsame] at hother
      exact howned.leaving other hother
  served := howned.served

end DhcpServer.Dns.TimerTasks
