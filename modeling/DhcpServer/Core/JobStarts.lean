import DhcpServer.Core.JobRegistry
import DhcpServer.Library.Parties
import DhcpServer.Library.Run

/-!
# Jobs that are registered after their task is created

The save and the load of the cache, the save of the statistics, the check of a volume and the
transfer set their flag, create their task and only then call `begin`; the task works and calls
`finish`. A step is a section under a mutex, a call of the observer or the creation of a task, and
the steps of the callers, of the tasks and of everybody else come in any order. The observer is
subscribed before the first job.
-/

namespace DhcpServer.Core.JobStarts

open Library
open JobRegistry

inductive Kind
  | persist (save : Bool)
  | stats
  | check (volumeId : Bytes) (budgetBytes : UInt32)
  | transfer (arg : Bytes)

def persistId (save : Bool) : Bytes := if save then ascii "cache_save" else ascii "cache_load"

namespace Kind

def info : Kind → JobInfo
  | persist save =>
    { id := persistId save
      titleKey := if save then ascii "jobs.cache_save" else ascii "jobs.cache_load"
      unit := .records }
  | stats => { id := ascii "stats_save", titleKey := ascii "jobs.stats_save" }
  | check volumeId budgetBytes =>
    { id := ascii "file_check"
      titleKey := ascii "jobs.file_check"
      arg := volumeId
      total := budgetBytes
      unit := .bytes }
  | transfer arg =>
    { id := ascii "transfer", titleKey := ascii "jobs.transfer", arg, unit := .bytes }

def id (kind : Kind) : Bytes := kind.info.id

def begin (kind : Kind) (registry : Registry) (now : Nat) : Registry × Bool :=
  registry.begin kind.id kind.info.titleKey kind.info.arg kind.info.total kind.info.unit
    kind.info.repeatSec now

/-- The task says that it is no longer busy before it calls `finish`. -/
def reports : Kind → Bool
  | persist _ | stats => false
  | check _ _ | transfer _ => true

end Kind

/-- The caller of a start function, once it has set the flag. -/
inductive Starter
  | creating
  | registering
  /-- `begin` has left the mutex and calls the observer -/
  | announcing
  | returned
deriving DecidableEq

inductive Task
  | absent
  | working
  | reported
  /-- `finish` has left the mutex with a copy of the record, if there was one -/
  | notifying (ended : Option JobInfo)
  | leaving
  | gone
deriving DecidableEq

namespace Task

/-- The task has not come to `finish`. -/
def Unfinished : Task → Prop
  | working | reported => True
  | _ => False

instance : (task : Task) → Decidable task.Unfinished
  | working | reported => .isTrue trivial
  | absent | notifying _ | leaving | gone => .isFalse not_false

def IsNotifying : Task → Prop
  | notifying _ => True
  | _ => False

instance : (task : Task) → Decidable task.IsNotifying
  | notifying _ => .isTrue trivial
  | absent | working | reported | leaving | gone => .isFalse not_false

def ended : Task → Option JobInfo
  | notifying ended => ended
  | _ => none

end Task

structure Job where
  kind : Kind
  starter : Starter := .creating
  task : Task := .absent

structure Flags where
  persistBusy : Bool := false
  persistSave : Bool := false
  statsBusy : Bool := false
  checkBusy : Bool := false
  transferBusy : Bool := false
  /-- `transferTask_` is not null -/
  transferTask : Bool := false

namespace Flags

variable (flags : Flags)

def free : Kind → Bool
  | .persist _ => !flags.persistBusy
  | .stats => !flags.statsBusy
  | .check _ _ => !flags.checkBusy
  | .transfer _ => !flags.transferBusy && !flags.transferTask

def take : Kind → Flags
  | .persist save => { flags with persistBusy := true, persistSave := save }
  | .stats => { flags with statsBusy := true }
  | .check _ _ => { flags with checkBusy := true }
  | .transfer _ => { flags with transferBusy := true }

def created : Kind → Flags
  | .transfer _ => { flags with transferTask := true }
  | _ => flags

def dropped : Kind → Flags
  | .persist _ => { flags with persistBusy := false }
  | .stats => { flags with statsBusy := false }
  | .check _ _ => { flags with checkBusy := false }
  | .transfer _ => { flags with transferBusy := false, transferTask := false }

/-- `checkFinish`, and the last report of the transfer. -/
def reported : Kind → Flags
  | .check _ _ => { flags with checkBusy := false }
  | .transfer _ => { flags with transferBusy := false }
  | _ => flags

def left : Kind → Flags
  | .persist _ => { flags with persistBusy := false }
  | .stats => { flags with statsBusy := false }
  | .check _ _ => flags
  | .transfer _ => { flags with transferTask := false }

end Flags

/-- The task of a save or a load takes its id from `persistSave_`. -/
def finishId (flags : Flags) : Kind → Bytes
  | .persist _ => persistId flags.persistSave
  | kind => kind.id

inductive Note
  | started (job : JobInfo)
  | finished (job : JobInfo)

/-- The copy that `finish` makes for the observer. -/
def endedCopy (registry : Registry) (id : Bytes) (state : JobState) (detail : Bytes) : Option JobInfo :=
  (registry.recordOf id).map fun record ↦
    { record.job with
      state
      pauseSec := 0
      detail := if detail = [] then record.job.detail else detail
      done := if 0 < record.job.total ∧ state = .done then record.job.total else record.job.done }

structure Shared where
  registry : Registry := .empty
  flags : Flags := {}
  /-- the calls of the observer, oldest first -/
  notes : List Note := []

inductive Move
  /-- `xTaskCreate` -/
  | create (created : Bool)
  | begin (now : Nat)
  | announce
  | report
  | finish (state : JobState) (detail : Bytes) (now : Nat)
  | notify
  /-- the task gives up the flag, or the handle, and deletes itself -/
  | leave

def Move.Enabled (job : Job) : Move → Prop
  | create _ => job.starter = .creating
  | begin _ => job.starter = .registering
  | announce => job.starter = .announcing
  | report => job.task = .working ∧ job.kind.reports = true
  | finish _ _ _ => job.task = if job.kind.reports then .reported else .working
  | notify => job.task.IsNotifying
  | leave => job.task = .leaving

instance (job : Job) : (move : Move) → Decidable (move.Enabled job)
  | .create _ | .begin _ | .announce | .finish _ _ _ | .leave =>
    inferInstanceAs (Decidable (_ = _))
  | .report => inferInstanceAs (Decidable (_ ∧ _))
  | .notify => inferInstanceAs (Decidable (Task.IsNotifying _))

def Move.apply (shared : Shared) (job : Job) : Move → Shared × Job
  | create true =>
    ({ shared with flags := shared.flags.created job.kind },
      { job with starter := .registering, task := .working })
  | create false =>
    ({ shared with flags := shared.flags.dropped job.kind },
      { job with starter := .returned, task := .gone })
  | begin now =>
    let begun := job.kind.begin shared.registry now
    ({ shared with registry := begun.1 },
      { job with starter := if begun.2 then .announcing else .returned })
  | announce =>
    ({ shared with notes := shared.notes ++ [.started job.kind.info] }, { job with starter := .returned })
  | report =>
    ({ shared with flags := shared.flags.reported job.kind }, { job with task := .reported })
  | finish state detail now =>
    let id := finishId shared.flags job.kind
    ({ shared with registry := shared.registry.finish id state detail now },
      { job with task := .notifying (endedCopy shared.registry id state detail) })
  | notify =>
    ({ shared with notes := shared.notes ++ job.task.ended.toList.map .finished },
      { job with task := .leaving })
  | leave =>
    ({ shared with flags := shared.flags.left job.kind }, { job with task := .gone })

/-- The parties are the jobs, each with its caller and its task. -/
abbrev State := Parties Shared Job

def start : State := ⟨{}, []⟩

inductive Event
  /-- the flag was free and is set -/
  | accept (kind : Kind)
  | move (number : Nat) (move : Move)
  /-- a call of another subsystem, a request to stop, or progress of anybody -/
  | call (call : Call)

def jobIds : List Bytes := ["cache_save", "cache_load", "stats_save", "file_check", "transfer"].map ascii

def step (state : State) : Event → Option State
  | .accept kind =>
    if state.shared.flags.free kind then
      some (state.join { state.shared with flags := state.shared.flags.take kind } { kind := kind })
    else none
  | .move number move => state.move (fun job move ↦ move.Enabled job) Move.apply number move
  | .call call =>
    if ∀ id ∈ jobIds, call.Foreign id then
      some ⟨{ state.shared with registry := call.apply state.shared.registry }, state.parties⟩
    else none

def Step (state : State) (event : Event) (state' : State) : Prop := step state event = some state'

end DhcpServer.Core.JobStarts
