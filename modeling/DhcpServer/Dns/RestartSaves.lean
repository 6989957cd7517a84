import DhcpServer.Library.Parties
import DhcpServer.Library.Run

/-!
# Cache saves for a restart

`startCacheSaveForRestart` leaves a request for a verified save in `persistVerifyOwed_`, and waits
for a job that runs already or starts one of its own. A job takes the request when it starts. A step
is one section under the mutex, the work of a job between two of them, or the creation of a task.
-/

namespace DhcpServer.Dns.RestartSaves

open Library

inductive PersistResult
  | none
  | ok
  | empty
  | mismatch
  | failed
deriving DecidableEq

inductive RestartSave
  | ok
  | skipped
  | nothingToSave
  | busy
  | failed
deriving DecidableEq

/-- A call of `startCacheSaveForRestart`, or of `startPersistJob` by anybody else. -/
inductive Purpose
  | restart
  | ordinary (save : Bool)
deriving DecidableEq

def Purpose.save : Purpose → Bool
  | restart => true
  | ordinary save => save

inductive Caller
  | entered
  /-- the request is left -/
  | requested
  /-- in `startPersistJob`, before the mutex -/
  | starting
  | accepted
  | returned (answer : RestartSave)
deriving DecidableEq

inductive Task
  | absent
  | created
  /-- the request has been taken, or there was none -/
  | running (save verify : Bool)
  | ended (result : PersistResult) (verified : Bool)
  | gone
deriving DecidableEq

structure Start where
  number : Nat
  purpose : Purpose
  caller : Caller
  task : Task := .absent
  /-- the restarts whose call had returned when the job was accepted -/
  earlier : List Nat := []
  /-- the restarts whose request the job has taken -/
  taken : List Nat := []
  /-- what a restart reads of the progress when no job is running any more -/
  observed : Option (PersistResult × Bool) := none

structure Shared where
  persistBusy : Bool := false
  persistSave : Bool := false
  persistResult : PersistResult := .none
  persistChecked : Bool := false
  persistVerifyOwed : Bool := false
  /-- the restarts whose request nobody has taken -/
  owedTo : List Nat := []
  /-- the restarts whose call has returned -/
  answered : List Nat := []

inductive Move
  /-- nothing to save, or the cache is gone -/
  | giveUp (answer : RestartSave)
  | request
  /-- `persistProgress().busy` -/
  | checkBusy
  | accept
  /-- `xTaskCreate` -/
  | create (created : Bool)
  /-- `takePersistVerifyOwed` -/
  | look
  | work (result : PersistResult)
  | finish
  /-- a restart that waits reads the progress -/
  | observe

/-- How a job may end: only a save with a check finds a mismatch, only a save finds nothing to do. -/
def Task.MayEnd (result : PersistResult) : Task → Prop
  | running true verify => result ≠ .none ∧ (result = .mismatch → verify = true)
  | running false _ => result = .ok ∨ result = .failed
  | _ => False

instance (result : PersistResult) : (task : Task) → Decidable (task.MayEnd result)
  | .running true _ => inferInstanceAs (Decidable (_ ∧ _))
  | .running false _ => inferInstanceAs (Decidable (_ ∨ _))
  | .absent | .created | .ended _ _ | .gone => .isFalse not_false

def Task.isEnded : Task → Bool
  | ended _ _ => true
  | _ => false

def Start.Relies (start : Start) : Prop :=
  start.purpose = .restart ∧ start.observed = none ∧
    (start.caller = .accepted ∨ start.caller = .returned .ok ∨ start.caller = .returned .busy)

instance (start : Start) : Decidable start.Relies := inferInstanceAs (Decidable (_ ∧ _))

def Move.Enabled (start : Start) : Move → Prop
  | giveUp answer =>
    start.caller = .entered ∧ (answer = .skipped ∨ answer = .nothingToSave) ∨
      start.caller = .starting ∧ answer = .failed
  | request => start.caller = .entered
  | checkBusy => start.caller = .requested
  | accept => start.caller = .starting
  | create _ => start.caller = .accepted
  | look => start.task = .created
  | work result => start.task.MayEnd result
  | finish => start.task.isEnded = true
  | observe => start.Relies ∧ start.caller ≠ .accepted

instance (start : Start) : (move : Move) → Decidable (move.Enabled start)
  | .giveUp _ => inferInstanceAs (Decidable (_ ∨ _))
  | .request | .checkBusy | .accept | .create _ | .look | .finish =>
    inferInstanceAs (Decidable (_ = _))
  | .work _ => inferInstanceAs (Decidable (Task.MayEnd _ _))
  | .observe => inferInstanceAs (Decidable (_ ∧ _))

def Shared.answer (shared : Shared) (start : Start) : Shared :=
  { shared with
    answered := match start.purpose with
      | .restart => start.number :: shared.answered
      | .ordinary _ => shared.answered }

def Move.apply (shared : Shared) (start : Start) : Move → Shared × Start
  | giveUp answer => (shared.answer start, { start with caller := .returned answer })
  | request =>
    ({ shared with persistVerifyOwed := true, owedTo := start.number :: shared.owedTo },
      { start with caller := .requested })
  | checkBusy =>
    if shared.persistBusy then (shared.answer start, { start with caller := .returned .busy })
    else (shared, { start with caller := .starting })
  | accept =>
    if shared.persistBusy then (shared.answer start, { start with caller := .returned .failed })
    else
      ({ shared with
          persistBusy := true
          persistSave := start.purpose.save
          persistResult := .none },
        { start with caller := .accepted, earlier := shared.answered })
  | create true => (shared.answer start, { start with caller := .returned .ok, task := .created })
  | create false =>
    ({ shared.answer start with persistBusy := false }, { start with caller := .returned .failed })
  | look =>
    ({ shared with persistVerifyOwed := false, owedTo := [] }, { start with
        task := .running shared.persistSave (shared.persistSave && shared.persistVerifyOwed)
        taken := shared.owedTo })
  | work result =>
    match start.task with
    | .running _ verify =>
      (shared, { start with task := .ended result (verify && result == .ok) })
    | _ => (shared, start)
  | finish =>
    match start.task with
    | .ended result verified =>
      ({ shared with
          persistBusy := false
          persistResult := result
          persistChecked := verified },
        { start with task := .gone })
    | _ => (shared, start)
  | observe =>
    if shared.persistBusy then (shared, start)
    else (shared, { start with observed := some (shared.persistResult, shared.persistChecked) })

abbrev State := Parties Shared Start

def start : State := ⟨{}, []⟩

inductive Event
  | call (purpose : Purpose)
  | move (number : Nat) (move : Move)

def Purpose.first : Purpose → Caller
  | restart => .entered
  | ordinary _ => .starting

def step (state : State) : Event → Option State
  | .call purpose =>
    some (state.join state.shared
      { number := state.parties.length, purpose := purpose, caller := purpose.first })
  | .move number move => state.move (fun start move ↦ move.Enabled start) Move.apply number move

def Step (state : State) (event : Event) (state' : State) : Prop := step state event = some state'

structure Verified (state : State) : Prop where
  /-- what a restart finds when it has waited -/
  kept : ∀ start ∈ state.parties, ∀ checked, start.observed = some (.ok, checked) → checked = true
  /-- no later save takes the request of a restart -/
  own : ∀ start ∈ state.parties, start.purpose = .ordinary true → ∀ restart ∈ start.taken,
    restart ∉ start.earlier

def Task.isActive : Task → Bool
  | created | running _ _ | ended _ _ => true
  | absent | gone => false

def Start.Active (start : Start) : Prop := start.caller = .accepted ∨ start.task.isActive = true

instance (start : Start) : Decidable start.Active := inferInstanceAs (Decidable (_ ∨ _))

def Start.willVerify (owed : Bool) (start : Start) : Bool :=
  match start.task with
  | .absent | .created => start.purpose.save && owed
  | .running _ verify => verify
  | .ended result verified => result != .ok || verified
  | .gone => true

/-- The job of a restart finds the request. Nobody else starts a job while a restart waits, or a save
where the request of a restart is left over. -/
def Purpose.MayBegin (state : State) : Purpose → Prop
  | restart => state.shared.persistVerifyOwed = true
  | ordinary save => (∀ other ∈ state.parties, ¬other.Relies) ∧
      (save = true → ∀ restart ∈ state.shared.owedTo, restart ∉ state.shared.answered)

instance (state : State) : (purpose : Purpose) → Decidable (purpose.MayBegin state)
  | .restart => inferInstanceAs (Decidable (_ = _))
  | .ordinary _ => inferInstanceAs (Decidable (_ ∧ _))

/-- A restart is only told to wait for a job that will verify, and no job begins where it must not. -/
def Undisturbed (state : State) : Event → Prop
  | .move _ .checkBusy =>
    ∀ job ∈ state.parties, job.Active → job.willVerify state.shared.persistVerifyOwed = true
  | .move number .accept =>
    state.shared.persistBusy = false → ∀ start ∈ state.parties[number]?, start.purpose.MayBegin state
  | _ => True

instance (state : State) : (event : Event) → Decidable (Undisturbed state event)
  | .move _ .checkBusy => inferInstanceAs (Decidable (∀ job ∈ state.parties, _ → _))
  | .move number .accept =>
    inferInstanceAs (Decidable (_ → ∀ start ∈ state.parties[number]?, _))
  | .call _ | .move _ (.giveUp _) | .move _ .request | .move _ (.create _) | .move _ .look
  | .move _ (.work _) | .move _ .finish | .move _ .observe => inferInstanceAs (Decidable True)

end DhcpServer.Dns.RestartSaves
