import DhcpServer.Library.Bytes
import DhcpServer.Library.Parties
import DhcpServer.Library.Run

/-!
# The statistics job

`startStatsSaveJob` is called by a restart and by the operator, from several tasks, and each call
says in `statsJobManual_` what it is before it knows whether it may start. The job looks at this
member once, when it runs. A step is a section under the mutex or one access to what is shared
without one.
-/

namespace DhcpServer.Dns.StatsJob

open Library

inductive Verdict
  | none
  | ok
  | skipped
  | mismatch
  | failed
deriving DecidableEq

inductive StartResult
  | started
  | busy
  | skipped

structure RestartSaveJobState where
  busy : Bool := false
  verdict : Verdict := .none
  detail : Bytes := []

namespace RestartSaveJobState

def request (job : RestartSaveJobState) (enabled : Bool) : RestartSaveJobState × StartResult :=
  if !enabled then ({ job with verdict := .skipped, detail := [] }, .skipped)
  else if job.busy then (job, .busy)
  else (⟨true, .none, []⟩, .started)

def finish (_job : RestartSaveJobState) (verdict : Verdict) (detail : Bytes) : RestartSaveJobState :=
  ⟨false, verdict, detail⟩

def abortStart (_job : RestartSaveJobState) : RestartSaveJobState :=
  ⟨false, .failed, ascii "the job task could not be created"⟩

end RestartSaveJobState

inductive StatsSaveOrigin
  | rebootPath
  | askedFor
deriving DecidableEq

def StatsSaveOrigin.asked : StatsSaveOrigin → Bool
  | rebootPath => false
  | askedFor => true

inductive RestartSave
  | ok
  | skipped
  | busy
  | failed
deriving DecidableEq

/-- How `DnsStatStore::saveWithRetry` ends. -/
inductive Outcome
  | ok
  | mismatch
  | failed
deriving DecidableEq

def Outcome.verdict : Outcome → Verdict
  | ok => .ok
  | mismatch => .mismatch
  | failed => .failed

inductive Caller
  | entered
  /-- `enabled` is known -/
  | enabled (enabled : Bool)
  /-- and `statsJobManual_` is written -/
  | marked (enabled : Bool)
  /-- the mutex was left with `Started` -/
  | accepted
  | returned (result : RestartSave)
deriving DecidableEq

inductive Task
  | absent
  | created
  /-- `statsJobManual_` was false -/
  | unmarked
  | writing
  /-- `writeStatsNow` has returned -/
  | decided (verdict : Verdict) (detail : Bytes)
  | gone (verdict : Verdict)
deriving DecidableEq

def Task.isDecided : Task → Bool
  | decided _ _ => true
  | _ => false

/-- A call of `startStatsSaveJob`, and the task it has created. -/
structure Start where
  origin : StatsSaveOrigin
  caller : Caller := .entered
  task : Task := .absent
deriving DecidableEq

structure Shared where
  statsJob : RestartSaveJobState := {}
  statsJobManual : Bool := false
  /-- the switch in the settings -/
  cacheInternalSaveStats : Bool

inductive Move
  /-- the settings are read, unless the save is asked for -/
  | enable
  | mark
  | request
  /-- `xTaskCreate` -/
  | create (created : Bool)
  | readManual
  | readSwitch
  | write (outcome : Outcome) (why : Bytes)
  | finish
deriving DecidableEq

def Move.Enabled (start : Start) : Move → Prop
  | enable => start.caller = .entered
  | mark => ∃ enabled : Bool, start.caller = .enabled enabled
  | request => ∃ enabled : Bool, start.caller = .marked enabled
  | create _ => start.caller = .accepted
  | readManual => start.task = .created
  | readSwitch => start.task = .unmarked
  | write _ _ => start.task = .writing
  | finish => start.task.isDecided = true

instance (start : Start) : (move : Move) → Decidable (move.Enabled start)
  | .enable | .create _ | .readManual | .readSwitch | .write _ _ | .finish =>
    inferInstanceAs (Decidable (_ = _))
  | .mark | .request => inferInstanceAs (Decidable (∃ _ : Bool, _))

/-- The result of a call that `request` has not let through. -/
def refusal : StartResult → Caller
  | .started => .accepted
  | .busy => .returned .busy
  | .skipped => .returned .skipped

def Move.apply (shared : Shared) (start : Start) : Move → Shared × Start
  | enable =>
    (shared, { start with caller := .enabled (start.origin.asked || shared.cacheInternalSaveStats) })
  | mark =>
    match start.caller with
    | .enabled enabled =>
      ({ shared with statsJobManual := start.origin.asked }, { start with caller := .marked enabled })
    | _ => (shared, start)
  | request =>
    match start.caller with
    | .marked enabled =>
      let requested := shared.statsJob.request enabled
      ({ shared with statsJob := requested.1 }, { start with caller := refusal requested.2 })
    | _ => (shared, start)
  | create true => (shared, { start with caller := .returned .ok, task := .created })
  | create false =>
    ({ shared with statsJob := shared.statsJob.abortStart }, { start with caller := .returned .failed })
  | readManual =>
    (shared, { start with task := if shared.statsJobManual then .writing else .unmarked })
  | readSwitch =>
    (shared, { start with
        task := if shared.cacheInternalSaveStats then .writing else .decided .skipped [] })
  | write outcome why =>
    (shared, { start with task := .decided outcome.verdict (if outcome = .ok then [] else why) })
  | finish =>
    match start.task with
    | .decided verdict detail =>
      ({ shared with statsJob := shared.statsJob.finish verdict detail },
        { start with task := .gone verdict })
    | _ => (shared, start)

/-- The parties are the calls of `startStatsSaveJob`. -/
abbrev State := Parties Shared Start

def start (cacheInternalSaveStats : Bool) : State := ⟨{ cacheInternalSaveStats }, []⟩

inductive Event
  | call (origin : StatsSaveOrigin)
  | move (number : Nat) (move : Move)
  /-- the settings are saved -/
  | setSwitch (on : Bool)

def step (state : State) : Event → Option State
  | .call origin => some (state.join state.shared { origin := origin })
  | .move number move => state.move (fun start move ↦ move.Enabled start) Move.apply number move
  | .setSwitch on => some ⟨{ state.shared with cacheInternalSaveStats := on }, state.parties⟩

def Step (state : State) (event : Event) (state' : State) : Prop := step state event = some state'

/-- The job has not tried to write the file, and will not. -/
def Task.Skipped : Task → Prop
  | decided verdict _ | gone verdict => verdict = .skipped
  | _ => False

def CarriedOut (state : State) : Prop :=
  ∀ start ∈ state.parties, start.origin = .askedFor → ¬start.task.Skipped

/-- A job that was asked for has been accepted and has not looked at `statsJobManual_`. -/
def Start.Waits (start : Start) : Prop :=
  start.origin = .askedFor ∧ (start.caller = .accepted ∨ start.task = .created)

instance (start : Start) : Decidable start.Waits := inferInstanceAs (Decidable (_ ∧ _))

/-- What an order has left behind is still there when the job looks: the mark or, where a restart
has taken it, the switch. -/
def Undisturbed (state : State) : Event → Prop
  | .move number .mark =>
    ∀ start ∈ state.parties[number]?, start.origin = .rebootPath →
      (∃ other ∈ state.parties, other.Waits) → state.shared.cacheInternalSaveStats = true
  | .move number .request =>
    ∀ start ∈ state.parties[number]?, start.origin = .askedFor → state.shared.statsJob.busy = false →
      state.shared.statsJobManual = true ∨ state.shared.cacheInternalSaveStats = true
  | .setSwitch false =>
    ∀ start ∈ state.parties, start.origin = .askedFor →
      start.task ≠ .unmarked ∧ (start.Waits → state.shared.statsJobManual = true)
  | _ => True

structure Start.Safe (shared : Shared) (start : Start) : Prop where
  waiting : start.Waits → shared.statsJobManual = true ∨ shared.cacheInternalSaveStats = true
  looking : start.origin = .askedFor → start.task = .unmarked → shared.cacheInternalSaveStats = true
  carried : start.origin = .askedFor → ¬start.task.Skipped

section Move

variable {state : State} {start other : Start} {number : Nat} {move : Move}

variable {shared : Shared}

theorem switch_apply :
    (move.apply shared start).1.cacheInternalSaveStats = shared.cacheInternalSaveStats := by
  cases move with
  | create created => cases created <;> rfl
  | mark | request | finish =>
    rw [Move.apply]
    split <;> rfl
  | enable | readManual | readSwitch | write => rfl

theorem manual_apply (hmark : move = .mark → start.origin = .askedFor)
    (hmanual : shared.statsJobManual) :
    (move.apply shared start).1.statsJobManual := by
  cases move with
  | create created => cases created <;> exact hmanual
  | mark =>
    rw [Move.apply]
    split
    · rw [hmark rfl]
      rfl
    · exact hmanual
  | request | finish =>
    rw [Move.apply]
    split <;> exact hmanual
  | enable | readManual | readSwitch | write => exact hmanual

theorem Start.Safe.of_other (hsafe : other.Safe state.shared) (hother : other ∈ state.parties)
    (hstart : state.parties[number]? = some start)
    (hundisturbed : Undisturbed state (.move number move)) :
    other.Safe (move.apply state.shared start).1 := by
  refine ⟨fun hwaits ↦ ?_, fun horigin htask ↦ ?_, hsafe.carried⟩
  · rw [switch_apply]
    by_cases hmark : move = .mark → start.origin = .askedFor
    · exact (hsafe.waiting hwaits).imp_left (manual_apply hmark)
    · obtain ⟨rfl, horigin⟩ := Classical.not_imp.mp hmark
      have hreboot : start.origin = .rebootPath := by
        cases hcase : start.origin with
        | rebootPath => rfl
        | askedFor => exact absurd hcase horigin
      exact .inr (hundisturbed start hstart hreboot ⟨other, hother, hwaits⟩)
  · rw [switch_apply]
    exact hsafe.looking horigin htask

theorem Start.Safe.caller (hsafe : start.Safe shared) {caller : Caller}
    (hcaller : start.origin = .askedFor → caller = .accepted →
      shared.statsJobManual ∨ shared.cacheInternalSaveStats) :
    Start.Safe shared { start with caller } where
  waiting := by
    rintro ⟨horigin, haccepted | hcreated⟩
    · exact hcaller horigin haccepted
    · exact hsafe.waiting ⟨horigin, .inr hcreated⟩
  looking := hsafe.looking
  carried := hsafe.carried

theorem Start.Safe.task (hsafe : start.Safe shared) {task : Task}
    (hcreated : task ≠ .created)
    (hlooking : start.origin = .askedFor → task = .unmarked → shared.cacheInternalSaveStats)
    (hcarried : start.origin = .askedFor → ¬task.Skipped) :
    Start.Safe shared { start with task } where
  waiting := by
    rintro ⟨horigin, haccepted | htask⟩
    · exact hsafe.waiting ⟨horigin, .inl haccepted⟩
    · exact absurd htask hcreated
  looking := hlooking
  carried := hcarried

theorem request_started {job : RestartSaveJobState} {enabled : Bool}
    (hstarted : refusal (job.request enabled).2 = .accepted) : job.busy = false := by
  rw [RestartSaveJobState.request] at hstarted
  cases enabled <;> cases hbusy : job.busy <;> simp_all [refusal]

theorem Start.Safe.moved (hsafe : start.Safe state.shared) (henabled : move.Enabled start)
    (hstart : state.parties[number]? = some start)
    (hundisturbed : Undisturbed state (.move number move)) :
    (move.apply state.shared start).2.Safe (move.apply state.shared start).1 := by
  cases move with
  | enable => exact hsafe.caller (by simp)
  | mark =>
    obtain ⟨enabled, hcaller⟩ := henabled
    simp only [Move.apply, hcaller]
    refine ⟨?_, hsafe.looking, hsafe.carried⟩
    -- an order that is still waiting marks the job itself
    intro hwaits
    exact .inl (by rw [show start.origin = .askedFor from hwaits.1]; rfl)
  | request =>
    obtain ⟨enabled, hcaller⟩ := henabled
    simp only [Move.apply, hcaller]
    have hsame : start.Safe
        { state.shared with statsJob := (state.shared.statsJob.request enabled).1 } :=
      ⟨hsafe.waiting, hsafe.looking, hsafe.carried⟩
    exact hsame.caller fun horigin haccepted ↦
      hundisturbed start hstart horigin (request_started haccepted)
  | create created =>
    have hwaits (horigin : start.origin = .askedFor) : start.Waits := ⟨horigin, .inl henabled⟩
    cases created with
    | true => exact ⟨fun hnew ↦ hsafe.waiting (hwaits hnew.1), by simp [Move.apply], fun _ ↦ id⟩
    | false =>
      have hsame : start.Safe { state.shared with statsJob := state.shared.statsJob.abortStart } :=
        ⟨hsafe.waiting, hsafe.looking, hsafe.carried⟩
      exact hsame.caller (by simp)
  | readManual =>
    have hwaits (horigin : start.origin = .askedFor) : start.Waits := ⟨horigin, .inr henabled⟩
    simp only [Move.apply]
    cases hmanual : state.shared.statsJobManual with
    | true => exact hsafe.task (by simp) (by simp) (fun _ ↦ id)
    | false =>
      refine hsafe.task (by simp) (fun horigin _ ↦ ?_) (fun _ ↦ id)
      simpa [hmanual] using hsafe.waiting (hwaits horigin)
  | readSwitch =>
    simp only [Move.apply]
    cases hswitch : state.shared.cacheInternalSaveStats with
    | true => exact hsafe.task (by simp) (by simp) (fun _ ↦ id)
    | false =>
      refine hsafe.task (by simp) (by simp) (fun horigin ↦ ?_)
      exact absurd (hsafe.looking horigin henabled) (by simp [hswitch])
  | write outcome why =>
    refine hsafe.task (by simp) (by simp) (fun _ ↦ ?_)
    cases outcome <;> simp [Outcome.verdict, Task.Skipped]
  | finish =>
    cases htask : start.task with
    | decided verdict detail =>
      simp only [Move.apply, htask]
      have hsame : start.Safe
          { state.shared with statsJob := state.shared.statsJob.finish verdict detail } :=
        ⟨hsafe.waiting, hsafe.looking, hsafe.carried⟩
      refine hsame.task (by simp) (by simp) (fun horigin ↦ ?_)
      have hcarried := hsafe.carried horigin
      rw [htask] at hcarried
      exact hcarried
    | absent | created | unmarked | writing | gone =>
      rw [Move.Enabled, htask] at henabled
      cases henabled

end Move

def Sound (state : State) : Prop := ∀ start ∈ state.parties, start.Safe state.shared

theorem sound_step {state state' : State} {event : Event} (hsound : Sound state)
    (hstep : Undisturbed state event ∧ Step state event state') : Sound state' := by
  obtain ⟨hundisturbed, hstep⟩ := hstep
  cases event with
  | call origin =>
    cases hstep
    apply Parties.forall_mem_join hsound
    exact ⟨by simp [Start.Waits], by simp, fun _ ↦ id⟩
  | move number move =>
    obtain ⟨start, hstart, henabled, rfl⟩ := Parties.move_eq_some_iff.mp hstep
    apply Parties.forall_mem_replace
    · exact fun other hother ↦ (hsound other hother).of_other hother hstart hundisturbed
    · exact (hsound start (List.mem_of_getElem? hstart)).moved henabled hstart hundisturbed
  | setSwitch on =>
    cases hstep
    intro start hstart
    have hsafe := hsound start hstart
    cases on with
    | true => exact ⟨fun _ ↦ .inr rfl, fun _ _ ↦ rfl, hsafe.carried⟩
    | false =>
      refine ⟨fun hwaits ↦ .inl ?_, fun horigin htask ↦ ?_, hsafe.carried⟩
      · exact (hundisturbed start hstart hwaits.1).2 hwaits
      · exact absurd htask (hundisturbed start hstart horigin).1

/-- Where nothing takes away what an order has left for its job, the job writes. -/
theorem order_carried_out {cacheInternalSaveStats : Bool} {events : List Event} {state : State}
    (hrun : Run (fun state event state' ↦ Undisturbed state event ∧ Step state event state')
      (start cacheInternalSaveStats) events state) : CarriedOut state := by
  have hsound : Sound state :=
    hrun.preserves (fun _ _ _ hsound hstep ↦ sound_step hsound hstep) (by simp [Sound, start])
  exact fun start hstart ↦ (hsound start hstart).carried

instance (state : State) : (event : Event) → Decidable (Undisturbed state event)
  | .move number .mark =>
    inferInstanceAs (Decidable (∀ start ∈ state.parties[number]?, _ → (∃ _ ∈ _, _) → _))
  | .move number .request =>
    inferInstanceAs (Decidable (∀ start ∈ state.parties[number]?, _ → _ → _ ∨ _))
  | .setSwitch false => inferInstanceAs (Decidable (∀ start ∈ state.parties, _ → _ ∧ (_ → _)))
  | .call _ | .setSwitch true | .move _ .enable | .move _ (.create _) | .move _ .readManual
  | .move _ .readSwitch | .move _ (.write _ _) | .move _ .finish =>
    inferInstanceAs (Decidable True)

/-- The operator saves the statistics, and a restart comes after the job has looked. -/
def laterRestart : List Event :=
  [.call .askedFor, .move 0 .enable, .move 0 .mark, .move 0 .request, .move 0 (.create true),
    .call .rebootPath, .move 1 .enable, .move 0 .readManual, .move 1 .mark, .move 1 .request,
    .move 0 (.write .ok []), .move 0 .finish]

theorem exists_order_carried_out :
    ∃ state, Run (fun state event state' ↦ Undisturbed state event ∧ Step state event state')
      (start false) laterRestart state ∧ CarriedOut state := by
  have hsome : (steps (fun state event ↦ if Undisturbed state event then step state event else none)
      (start false) laterRestart).isSome = true := by decide +kernel
  obtain ⟨state, hsteps⟩ := Option.isSome_iff_exists.mp hsome
  have hrun : Run (fun state event state' ↦ Undisturbed state event ∧ Step state event state')
      (start false) laterRestart state :=
    run_of_allowedSteps hsteps
  exact ⟨state, hrun, order_carried_out hrun⟩

/-- The restart comes before the job has looked; the switch is off. -/
def earlierRestart : List Event :=
  [.call .askedFor, .move 0 .enable, .move 0 .mark, .move 0 .request, .move 0 (.create true),
    .call .rebootPath, .move 1 .enable, .move 1 .mark, .move 1 .request, .move 0 .readManual,
    .move 0 .readSwitch, .move 0 .finish]

theorem order_skipped : ¬∀ (events : List Event) (state : State),
    Run Step (start false) events state → CarriedOut state := by
  intro hall
  have hparty : (steps step (start false) earlierRestart).any (fun state ↦
      state.parties.contains ⟨.askedFor, .returned .ok, .gone .skipped⟩) = true := by decide +kernel
  obtain ⟨state, hrun, hcontains⟩ := exists_run_of_any hparty
  exact hall earlierRestart state hrun _ (List.contains_iff_mem.mp hcontains) rfl rfl

end DhcpServer.Dns.StatsJob
