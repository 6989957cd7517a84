import Mathlib.Data.List.Basic

/-!
# The queues of the query log

`logToRest` and `logToFile` never wait for the task that takes their records: where the queue is full they take the
oldest record out and try once more. Every call on the queue is one step, in any order of the two tasks.
-/

namespace DhcpServer.Dns.QueryLog

open List

variable {Record : Type*} {depth : Nat} {queries : List Record}

inductive Task
  | logger
  | sender

structure State (Record : Type*) where
  /-- still to be logged -/
  queries : List Record
  /-- a record that was refused, and whether room has been made for it -/
  pushing : Option (Record × Bool) := none
  queue : List Record := []
  sent : List Record := []
  dropped : UInt32 := 0

def next (depth : Nat) (state : State Record) : Task → State Record
  | .logger =>
    match state.pushing, state.queries, state.queue with
    | none, [], _ => state
    | none, record :: queries, queue =>
      if queue.length < depth then { state with queries, queue := queue ++ [record] }
      else { state with queries, pushing := some (record, false) }
    | some (_, false), _, [] => { state with pushing := none, dropped := state.dropped + 1 }
    | some (record, false), _, _ :: queue => { state with pushing := some (record, true), queue }
    | some (record, true), _, queue =>
      { state with
        pushing := none
        queue := if queue.length < depth then queue ++ [record] else queue
        dropped := state.dropped + 1 }
  | .sender =>
    match state.queue with
    | [] => state
    | record :: queue => { state with queue, sent := state.sent ++ [record] }

/-- The records that are not lost, in the order of their queries. -/
def State.kept (state : State Record) : List Record :=
  state.sent ++ state.queue ++ (state.pushing.map Prod.fst).toList ++ state.queries

/-- One record is out that the counter does not have yet. -/
def State.behind (state : State Record) : Nat := if state.pushing.any Prod.snd then 1 else 0

def State.lost (state : State Record) : UInt32 := state.dropped + UInt32.ofNat state.behind

structure Accounted (depth : Nat) (queries : List Record) (state : State Record) : Prop where
  order : state.kept <+ queries
  counted : state.lost + UInt32.ofNat state.kept.length = UInt32.ofNat queries.length
  short : state.queue.length + state.behind ≤ depth

theorem next_kept {state after : State Record} {task : Task} (hafter : next depth state task = after)
    (hshort : state.queue.length + state.behind ≤ depth) :
    after.kept = state.kept ∧ after.lost = state.lost ∨ ∃ front record rest,
      state.kept = front ++ record :: rest ∧ after.kept = front ++ rest ∧ after.lost = state.lost + 1 := by
  subst hafter
  fun_cases next depth state task with
  | case4 record => exact .inr ⟨state.sent, record, state.queries, by simp [State.kept, State.lost, State.behind, *]⟩
  | case5 => exact .inr ⟨state.sent, _, _, by simp [State.kept, State.lost, State.behind, *]; exact ⟨rfl, rfl⟩⟩
  | case6 =>
    have hroom : state.queue.length < depth := by grind [State.behind]
    exact .inl (by simp [State.kept, State.lost, State.behind, *])
  | _ => exact .inl (by simp [State.kept, State.lost, State.behind, *])

theorem accounted_next {state : State Record} (haccounted : Accounted depth queries state) (task : Task) :
    Accounted depth queries (next depth state task) := by
  obtain ⟨horder, hcounted, hshort⟩ := haccounted
  have hqueue : (next depth state task).queue.length + (next depth state task).behind ≤ depth := by
    fun_cases next depth state task <;> grind [State.behind]
  obtain ⟨hkept, hlost⟩ | ⟨front, record, rest, hkept, hafter, hlost⟩ := next_kept rfl hshort
  · exact ⟨hkept ▸ horder, by rw [hkept, hlost, hcounted], hqueue⟩
  · rw [hkept] at horder hcounted
    refine ⟨hafter ▸ .trans (by simp) horder, ?_, hqueue⟩
    rw [hafter, hlost, ← hcounted]
    simp [UInt32.ofNat_add]
    grind

/-- In every order of the steps no record is sent twice or out of turn, and the counter has every record that is
lost. -/
theorem log_is_accounted (depth : Nat) (queries : List Record) (schedule : List Task) :
    Accounted depth queries (schedule.foldl (next depth) { queries }) := by
  have hstart : Accounted depth queries { queries } :=
    ⟨by simp [State.kept], by simp [State.kept, State.lost, State.behind], Nat.zero_le depth⟩
  exact foldlRecOn schedule _ hstart fun _ hstate task _ ↦ accounted_next hstate task

end DhcpServer.Dns.QueryLog
