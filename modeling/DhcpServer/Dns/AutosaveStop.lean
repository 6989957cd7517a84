import DhcpServer.Core.JobRegistry
import DhcpServer.Library.Run

/-!
# Stopping an autosave

`saveNow` of `CacheAutosave` and `StatsAutosave` against the job registry. Its steps are the sections
of the registry, the write between two of them, and the return; `Others` says which calls of other
tasks come in between. The progress a save reports of its own is among them.
-/

namespace DhcpServer.Dns.AutosaveStop

open Library
open DhcpServer.Core.JobRegistry

/-- Calls of other tasks between the steps of `saveNow`, and the clock at its own. -/
structure Others where
  beforeBegin : List Call := []
  whileWriting : List Call := []
  beforeCheck : List Call := []
  beforeStop : List Call := []
  beforeReturn : List Call := []
  beginTime : Nat := 0
  finishTime : Nat := 0
  stopTime : Nat := 0

def Others.Foreign (id : Bytes) (others : Others) : Prop :=
  ∀ call ∈ others.beforeBegin ++ others.whileWriting ++ others.beforeCheck ++ others.beforeStop ++
    others.beforeReturn, call.Foreign id

instance (id : Bytes) (others : Others) : Decidable (others.Foreign id) :=
  inferInstanceAs (Decidable (∀ call ∈ _, _))

structure State where
  registry : Registry
  enabled : Bool
  /-- how often `onDisabled_` was called -/
  disabled : Nat := 0
  /-- a request to stop was granted since the last `saveNow` began -/
  asked : Bool := false

def State.others (id : Bytes) (calls : List Call) (state : State) : State :=
  { state with
    registry := after state.registry calls
    asked := state.asked || granted id state.registry calls }

structure Autosave where
  kJobId : Bytes
  kJobTitleKey : Bytes
  arg : Bytes
  unit : JobUnit

/-- How a write ended, and what the registry is told about it. -/
structure Outcome where
  ok : Bool
  detail : Bytes

def Autosave.begin (autosave : Autosave) (registry : Registry) (now : Nat) : Registry × Bool :=
  registry.begin autosave.kJobId autosave.kJobTitleKey autosave.arg 0 autosave.unit 0 now

/-- `ready` is the guard: there is a cache to save, or a handler that writes. -/
def saveNow (autosave : Autosave) (ready : Bool) (outcome : Outcome) (others : Others)
    (before : State) : State :=
  let id := autosave.kJobId
  let state := { before with asked := false }.others id others.beforeBegin
  if !ready then state
  else
    let begun := autosave.begin state.registry others.beginTime
    if !begun.2 then state
    else
      let state := { state with registry := begun.1 }.others id others.whileWriting
      let registry := state.registry.finish id (if outcome.ok then .done else .failed)
        outcome.detail others.finishTime
      let state := { state with registry }.others id others.beforeCheck
      if state.registry.cancelRequested id then
        let state := state.others id others.beforeStop
        let registry := state.registry.finish id .cancelled (ascii "stopped by the operator")
          others.stopTime
        { state with
          registry
          enabled := false
          disabled := state.disabled + 1 }.others id others.beforeReturn
      else state.others id others.beforeReturn

namespace CacheAutosave

def autosave (path : Bytes) : Autosave :=
  ⟨ascii "cache_autosave", ascii "jobs.cache_autosave", path, .records⟩

/-- `saved` is the number of records of a `saveToFile` that succeeded. -/
def outcome : Option Nat → Outcome
  | some entries => ⟨true, ascii (toString entries) ++ ascii " entries"⟩
  | none => ⟨false, ascii "write failed"⟩

def saveNow (path : Bytes) (available : Bool) (saved : Option Nat) : Others → State → State :=
  AutosaveStop.saveNow (autosave path) available (outcome saved)

end CacheAutosave

namespace StatsAutosave

def kPath : Bytes := ascii "/fat/Statistica.dat"

def autosave : Autosave := ⟨ascii "stats_autosave", ascii "jobs.stats_autosave", kPath, .none⟩

def outcome (written : Outcome) : Outcome := ⟨written.ok, if written.ok then kPath else written.detail⟩

def saveNow (hasWrite : Bool) (written : Outcome) : Others → State → State :=
  AutosaveStop.saveNow autosave hasWrite (outcome written)

end StatsAutosave

inductive Save
  | cache (path : Bytes) (available : Bool) (saved : Option Nat)
  | stats (hasWrite : Bool) (written : Outcome)

namespace Save

def autosave : Save → Autosave
  | cache path _ _ => CacheAutosave.autosave path
  | stats _ _ => StatsAutosave.autosave

def ready : Save → Bool
  | cache _ available _ => available
  | stats hasWrite _ => hasWrite

def run : Save → Others → State → State
  | cache path available saved => CacheAutosave.saveNow path available saved
  | stats hasWrite written => StatsAutosave.saveNow hasWrite written

theorem exists_run_eq (save : Save) : ∃ outcome, save.run = saveNow save.autosave save.ready outcome := by
  cases save with
  | cache path available saved => exact ⟨CacheAutosave.outcome saved, rfl⟩
  | stats hasWrite written => exact ⟨StatsAutosave.outcome written, rfl⟩

end Save

inductive Event
  | call (call : Call)
  | save (save : Save) (others : Others)

/-- The task of the timer saves, one time after another, and other tasks use the registry. -/
def Step (id : Bytes) (state : State) : Event → State → Prop
  | .call call, state' =>
    call.Foreign id ∧ state' = { state with registry := call.apply state.registry }
  | .save save others, state' =>
    save.autosave.kJobId = id ∧ others.Foreign id ∧ state' = save.run others state

def start (enabled : Bool) : State := { registry := .empty, enabled }

/-- The claim on one `saveNow`: a stop that was granted during it has switched the timer off, and
without one nothing has changed. -/
def Holds (before after : State) : Prop :=
  (after.asked = true → after.enabled = false ∧ after.disabled = before.disabled + 1) ∧
    (after.asked = false → after.enabled = before.enabled ∧ after.disabled = before.disabled)

def Begins (save : Save) (others : Others) (state : State) : Prop :=
  save.ready = true ∧
    (after state.registry others.beforeBegin).slotFor save.autosave.kJobId others.beginTime ≠ none

theorem kJobId_ne_nil (save : Save) : save.autosave.kJobId ≠ [] := by
  cases save with
  | cache path available saved =>
    change ascii "cache_autosave" ≠ []
    decide
  | stats hasWrite written =>
    change ascii "stats_autosave" ≠ []
    decide

theorem begin_running {autosave : Autosave} {registry : Registry} {now : Nat} {slot : Fin kMaxJobs}
    (hid : autosave.kJobId ≠ []) (hslot : registry.slotFor autosave.kJobId now = some slot) :
    (autosave.begin registry now).2 ∧ Running (autosave.begin registry now).1 autosave.kJobId := by
  obtain ⟨hbegun, hrecord⟩ := Registry.begin_of_slotFor hid hslot
  exact ⟨hbegun, _, hrecord, rfl, rfl⟩

theorem recordOf_finish_running {registry : Registry} {id : Bytes} (state : JobState)
    (detail : Bytes) (now : Nat) (hrunning : Running registry id) :
    (registry.finish id state detail now).recordOf id = none := by
  obtain ⟨record, hrecord, -, honce⟩ := hrunning
  apply Registry.recordOf_finish_self
  intro same hsame
  obtain rfl := Option.mem_unique hrecord hsame
  exact honce

theorem saveNow_spec {save : Save} {others : Others} {state : State}
    (hforeign : others.Foreign save.autosave.kJobId)
    (hnone : state.registry.recordOf save.autosave.kJobId = none) :
    (save.run others state).registry.recordOf save.autosave.kJobId = none ∧
      (save.run others state).enabled = state.enabled ∧
      (save.run others state).disabled = state.disabled ∧
      ((save.run others state).asked = true ↔
        Begins save others state ∧ .requestCancel save.autosave.kJobId ∈ others.whileWriting) := by
  obtain ⟨outcome, hrun⟩ := save.exists_run_eq
  have hid := kJobId_ne_nil save
  simp only [Others.Foreign, List.forall_mem_append] at hforeign
  obtain ⟨⟨⟨⟨hbefore, hwriting⟩, hcheck⟩, -⟩, hreturn⟩ := hforeign
  obtain ⟨hbeforeNone, hbeforeGranted⟩ := after_none hbefore hnone
  rw [hrun, Begins, saveNow]
  dsimp only [State.others]
  by_cases hready : save.ready
  case neg => simp [hready, hbeforeNone, hbeforeGranted]
  cases hslot : (after state.registry others.beforeBegin).slotFor save.autosave.kJobId
      others.beginTime with
  | none =>
    have hbegin : save.autosave.begin (after state.registry others.beforeBegin) others.beginTime =
        (after state.registry others.beforeBegin, false) := Registry.begin_of_slotFor_none hslot
    simp [hready, hbegin, hbeforeNone, hbeforeGranted]
  | some slot =>
    obtain ⟨hbegun, hrunning⟩ := begin_running hid hslot
    obtain ⟨hrunning, hwritingGranted⟩ := after_running hwriting hrunning
    have hgone := recordOf_finish_running (if outcome.ok then .done else .failed) outcome.detail
      others.finishTime hrunning
    obtain ⟨hcheckNone, hcheckGranted⟩ := after_none hcheck hgone
    obtain ⟨hreturnNone, hreturnGranted⟩ := after_none hreturn hcheckNone
    have hunseen : Registry.cancelRequested _ _ = false := congrArg (Option.any _) hcheckNone
    simp [hready, hbegun, hbeforeGranted, hunseen, hreturnNone, hcheckGranted, hreturnGranted,
      hwritingGranted]

theorem recordOf_of_run {id : Bytes} {enabled : Bool} {events : List Event} {state : State}
    (hrun : Run (Step id) (start enabled) events state) : state.registry.recordOf id = none := by
  have hkeep : ∀ state event state', state.registry.recordOf id = none → Step id state event state' →
      state'.registry.recordOf id = none := by
    intro state event state' hnone hstep
    cases event with
    | call call =>
      obtain ⟨hforeign, rfl⟩ := hstep
      exact recordOf_apply_none hforeign hnone
    | save save others =>
      obtain ⟨rfl, hforeign, rfl⟩ := hstep
      exact (saveNow_spec hforeign hnone).1
  exact hrun.preserves hkeep (Registry.recordOf_empty id)

/-- A save does what it should when a stop is asked for if and only if none is asked for while it
writes. -/
theorem holds_iff (save : Save) (others : Others) {enabled : Bool} {events : List Event}
    {state : State} (hrun : Run (Step save.autosave.kJobId) (start enabled) events state)
    (hforeign : others.Foreign save.autosave.kJobId) :
    Holds state (save.run others state) ↔ (Begins save others state →
        .requestCancel save.autosave.kJobId ∉ others.whileWriting) := by
  obtain ⟨-, henabled, hdisabled, hasked⟩ := saveNow_spec hforeign (recordOf_of_run hrun)
  calc
    Holds state (save.run others state) ↔ ¬(save.run others state).asked = true := by
      simp [Holds, henabled, hdisabled]
    _ ↔ _ := by
      rw [hasked, not_and]

/-- Somebody else finishes an upload while the cache is being written. -/
def sampleOthers : Others :=
  { whileWriting := [.finish (ascii "upload") .done [] 5, .progress (ascii "cache_autosave") 64 0 []] }

def sampleSave : Save := .cache (ascii "/fat/cache.dat") true (some 100)

theorem holds_iff_sample : Holds (start true) (sampleSave.run sampleOthers (start true)) ↔
      (Begins sampleSave sampleOthers (start true) →
        .requestCancel sampleSave.autosave.kJobId ∉ sampleOthers.whileWriting) :=
  holds_iff sampleSave sampleOthers (.nil _) (by decide)

/-- The operator presses Stop while the cache is being written, is told that the save will stop, and
the timer stays on. -/
theorem holds_fails_stop : ¬Holds (start true) (sampleSave.run
      { whileWriting := [.requestCancel (ascii "cache_autosave")] } (start true)) := by
  intro hholds
  have hoff := (hholds.1 (by decide)).1
  revert hoff
  decide

end DhcpServer.Dns.AutosaveStop
