import DhcpServer.Files.FormatStops
import DhcpServer.Library.Parties

/-!
# One format at a time

Where every step is orderly there is one format at a time, and the stops and power cuts under way are for
it. From the moment it clears `g_formatAbandoned` to the moment it reads it again, its record is there and
shows whether it has been stopped, or a stop has removed the record and set the flag; `g_formatCallDone`
is clear until its erase has returned.
-/

namespace DhcpServer.Files.FormatStops

open Library Core.JobRegistry

structure View where
  record : Option Record
  abandoned : Bool
  callDone : Bool
  /-- a stop has been accepted for it -/
  stopped : Prop
  /-- a stop is about to finish the record -/
  ending : Prop
  /-- a stop is about to set `g_formatAbandoned` -/
  accepted : Prop

def view (shared : Shared) (stops : List Stop) (number : Nat) : View where
  record := shared.registry.recordOf formatId
  abandoned := shared.abandoned
  callDone := shared.callDone
  stopped := number ∈ shared.stopped
  ending := ∃ stop ∈ stops, stop.ending = true
  accepted := ∃ stop ∈ stops, stop.accepted = true

/-- The record is that of a format of the volume, and shows whether it has been stopped. -/
structure Shows (stopped : Prop) (volume : Bytes) (record : Record) : Prop where
  running : record.job.state = .running
  once : record.job.repeatSec = 0
  arg : record.job.arg = volume
  asked : record.job.cancelRequested = true ↔ stopped

namespace View

variable (view : View) (volume : Bytes)

def Recorded : Prop := ∃ record, view.record = some record ∧ Shows view.stopped volume record

/-- Between the two accesses of the format to `g_formatAbandoned`. -/
structure Open : Prop where
  record : view.Recorded volume ∨ view.record = none ∧ view.abandoned = true
  stopped : view.abandoned = true → view.stopped
  ending : view.ending → view.abandoned = true
  closing : view.abandoned = true → view.record = none ∨ view.ending

def Closed : Prop := view.record = none ∨ view.Recorded volume ∧ view.ending

def Placed : Stage → Prop
  | .beginning => False
  | .clearingAbandoned => view.Recorded volume ∧ ¬view.ending
  | .dropping => view.Recorded volume ∧ ¬view.stopped
  | .exchanging true => view.Open volume ∧ view.stopped
  | .exchanging false => view.Open volume ∧ (view.stopped → view.abandoned = true ∨ view.accepted)
  | .finishing true => (view.Recorded volume ∨ view.record = none) ∧ view.stopped
  | .finishing false => view.Recorded volume ∧ ¬view.stopped
  | .answering true => view.Closed volume ∧ view.stopped
  | .answering false => view.record = none ∧ ¬view.stopped
  | .answered .cancelled => view.Closed volume
  | .answered _ => view.record = none ∧ ¬view.stopped
  | _ => view.Open volume

variable {view volume} {stage : Stage}

variable {record : Record}

theorem Recorded.shows (hrecorded : view.Recorded volume)
    (hrecord : view.record = some record) : Shows view.stopped volume record := by
  obtain ⟨same, hsame, hshows⟩ := hrecorded
  obtain rfl := Option.some.inj (hsame.symm.trans hrecord)
  exact hshows

theorem Open.recorded (hopen : view.Open volume) (hrecord : view.record = some record) :
    view.Recorded volume :=
  hopen.record.resolve_right fun hnone ↦ by simp [hrecord] at hnone

theorem Closed.recorded (hclosed : view.Closed volume)
    (hrecord : view.record = some record) : view.Recorded volume ∧ view.ending :=
  hclosed.resolve_left fun hnone ↦ by simp [hrecord] at hnone

theorem Placed.shows (hplaced : view.Placed volume stage)
    (hrecord : view.record = some record) : Shows view.stopped volume record := by
  have hsome : view.record ≠ none := by simp [hrecord]
  cases stage with
  | beginning => exact hplaced.elim
  | clearingAbandoned | dropping => exact hplaced.1.shows hrecord
  | exchanging cancelled => cases cancelled <;> exact (hplaced.1.recorded hrecord).shows hrecord
  | finishing cancelled =>
    cases cancelled with
    | true => exact (hplaced.1.resolve_right hsome).shows hrecord
    | false => exact hplaced.1.shows hrecord
  | answering cancelled =>
    cases cancelled with
    | true => exact (hplaced.1.recorded hrecord).1.shows hrecord
    | false => exact absurd hplaced.1 hsome
  | answered answer =>
    cases answer with
    | cancelled => exact (Closed.recorded hplaced hrecord).1.shows hrecord
    | conflict | tooMany | cannotStart | result => exact absurd hplaced.1 hsome
  | clearingCallDone | creating | looking | finding | askingFormat | askingCheck | askingRepair
  | claiming | erasing | releasing | noting | judging =>
    exact (Open.recorded hplaced hrecord).shows hrecord

theorem Open.abandon (hopen : view.Open volume) (hstopped : view.stopped) {ending : Prop}
    (hending : ending) (accepted : Prop) :
    View.Open { view with abandoned := true, ending, accepted } volume where
  record := hopen.record.imp_right fun hnone ↦ ⟨hnone.1, rfl⟩
  stopped _ := hstopped
  ending _ := rfl
  closing _ := .inr hending

theorem Placed.abandon (hplaced : view.Placed volume stage) (hstage : stage ≠ .clearingAbandoned)
    (hstopped : view.stopped) {ending : Prop} (hending : ending) (accepted : Prop) :
    View.Placed { view with abandoned := true, ending, accepted } volume stage := by
  cases stage with
  | beginning => exact hplaced
  | clearingAbandoned => exact absurd rfl hstage
  | dropping => exact absurd hstopped hplaced.2
  | exchanging cancelled =>
    cases cancelled with
    | true => exact ⟨hplaced.1.abandon hstopped hending accepted, hplaced.2⟩
    | false => exact ⟨hplaced.1.abandon hstopped hending accepted, fun _ ↦ .inl rfl⟩
  | finishing cancelled => cases cancelled <;> exact hplaced
  | answering cancelled =>
    cases cancelled with
    | true => exact ⟨hplaced.1.imp_right fun hrecorded ↦ ⟨hrecorded.1, hending⟩, hplaced.2⟩
    | false => exact hplaced
  | answered answer =>
    cases answer with
    | cancelled => exact Or.imp_right (fun hrecorded ↦ ⟨hrecorded.1, hending⟩) hplaced
    | conflict | tooMany | cannotStart | result => exact hplaced
  | clearingCallDone | creating | looking | finding | askingFormat | askingCheck | askingRepair
  | claiming | erasing | releasing | noting | judging =>
    exact Open.abandon hplaced hstopped hending accepted

theorem Open.finish (hopen : view.Open volume) (hending : view.ending) (ending : Prop) :
    View.Open { view with record := none, ending } volume where
  record := .inr ⟨rfl, hopen.ending hending⟩
  stopped := hopen.stopped
  ending _ := hopen.ending hending
  closing _ := .inl rfl

theorem Placed.finish (hplaced : view.Placed volume stage) (hending : view.ending)
    (hstopped : view.stopped) (ending : Prop) :
    View.Placed { view with record := none, ending } volume stage := by
  cases stage with
  | beginning => exact hplaced
  | clearingAbandoned => exact absurd hending hplaced.2
  | dropping => exact absurd hstopped hplaced.2
  | exchanging cancelled => cases cancelled <;> exact ⟨hplaced.1.finish hending ending, hplaced.2⟩
  | finishing cancelled =>
    cases cancelled with
    | true => exact ⟨.inr rfl, hplaced.2⟩
    | false => exact absurd hstopped hplaced.2
  | answering cancelled =>
    cases cancelled with
    | true => exact ⟨.inl rfl, hplaced.2⟩
    | false => exact ⟨rfl, hplaced.2⟩
  | answered answer =>
    cases answer with
    | cancelled => exact .inl rfl
    | conflict | tooMany | cannotStart | result => exact ⟨rfl, hplaced.2⟩
  | clearingCallDone | creating | looking | finding | askingFormat | askingCheck | askingRepair
  | claiming | erasing | releasing | noting | judging =>
    exact Open.finish hplaced hending ending

theorem Open.request (hopen : view.Open volume) (hsome : view.record ≠ none)
    (hshows : Shows True volume record) :
    View.Open { view with record := some record, stopped := True, accepted := True } volume where
  record := .inl ⟨record, rfl, hshows⟩
  stopped _ := trivial
  ending := hopen.ending
  closing habandoned := .inr ((hopen.closing habandoned).resolve_left hsome)

theorem Placed.request (hplaced : view.Placed volume stage) {old record : Record}
    (hold : view.record = some old) (hshows : Shows True volume record) (hdrop : stage ≠ .dropping)
    (hfinish : stage ≠ .finishing false) :
    View.Placed { view with record := some record, stopped := True, accepted := True } volume stage := by
  have hsome : view.record ≠ none := by simp [hold]
  have hrecorded : View.Recorded { view with record := some record, stopped := True, accepted := True }
      volume := ⟨record, rfl, hshows⟩
  cases stage with
  | beginning => exact hplaced
  | clearingAbandoned => exact ⟨hrecorded, hplaced.2⟩
  | dropping => exact absurd rfl hdrop
  | exchanging cancelled =>
    cases cancelled with
    | true => exact ⟨hplaced.1.request hsome hshows, trivial⟩
    | false => exact ⟨hplaced.1.request hsome hshows, fun _ ↦ .inr trivial⟩
  | finishing cancelled =>
    cases cancelled with
    | true => exact ⟨.inl hrecorded, trivial⟩
    | false => exact absurd rfl hfinish
  | answering cancelled =>
    cases cancelled with
    | true => exact ⟨.inr ⟨hrecorded, (hplaced.1.recorded hold).2⟩, trivial⟩
    | false => exact absurd hplaced.1 hsome
  | answered answer =>
    cases answer with
    | cancelled => exact .inr ⟨hrecorded, (Closed.recorded hplaced hold).2⟩
    | conflict | tooMany | cannotStart | result => exact absurd hplaced.1 hsome
  | clearingCallDone | creating | looking | finding | askingFormat | askingCheck | askingRepair
  | claiming | erasing | releasing | noting | judging =>
    exact Open.request hplaced hsome hshows

end View

/-- The flag that the request has cleared is still clear. -/
def Stage.calling : Stage → Bool
  | .creating | .looking | .finding | .askingFormat | .askingCheck | .askingRepair | .claiming
  | .erasing | .releasing | .noting => true
  | _ => false

theorem View.placed_of_calling {view : View} {volume : Bytes} {stage : Stage}
    (hcalling : stage.calling) : view.Placed volume stage ↔ view.Open volume := by
  cases stage with
  | creating | looking | finding | askingFormat | askingCheck | askingRepair | claiming | erasing
  | releasing | noting => exact .rfl
  | beginning | clearingAbandoned | clearingCallDone | dropping | judging | exchanging | finishing
  | answering | answered => cases hcalling

structure Fits (view : View) (format : Format) : Prop where
  placed : view.Placed format.volume format.stage
  calling : format.stage.calling = true → view.callDone = false
  noted : format.noted = true → view.callDone = true

theorem Fits.of_idle {view : View} {format : Format} (hplaced : view.Placed format.volume format.stage)
    (hidle : format.stage.calling = false) (hnoted : format.noted → view.callDone) :
    Fits view format :=
  ⟨hplaced, fun hcalling ↦ absurd (hidle.symm.trans hcalling) Bool.false_ne_true, hnoted⟩

/-- What a format knows of itself: an outcome that is `ok` comes from its own erase. -/
def Format.Honest (format : Format) : Prop :=
  match format.stage with
  | .releasing | .noting => format.noted = false ∧ (format.status = .ok → format.erased = some true)
  | .judging => format.status = .ok → format.erased = some true
  | .exchanging cancelled | .finishing cancelled | .answering cancelled =>
    cancelled = false → format.status = .ok → format.erased = some true
  | .answered (.result .ok _) => format.erased = some true
  | .answered _ => True
  | _ => format.noted = false

theorem Format.honest_refuse {format : Format} {status : FileStatus} {detail : Bytes}
    (hnoted : format.noted = false) (hstatus : status ≠ .ok) : (format.refuse status detail).Honest :=
  ⟨hnoted, fun hok ↦ absurd hok hstatus⟩

def Stop.Aims (stop : Stop) (volume : Bytes) : Prop :=
  match stop.stage with
  | .abandoning aim | .finishing aim | .starting aim => aim ≠ [] → volume = aim
  | .waiting aim | .cutting aim => volume = aim
  | _ => True

structure Sound (state : State) : Prop where
  alone : ∀ number format, state.formats[number]? = some format → format.underWay = true →
    state.shared.last = some number
  known : ∀ number, state.shared.last = some number → ∃ format, state.formats[number]? = some format ∧
    Fits (view state.shared state.stops number) format
  unknown : state.shared.last = none → state.shared.registry.recordOf formatId = none
  begun : ∀ number ∈ state.shared.stopped, ∃ format, state.formats[number]? = some format ∧
    format.stage ≠ .beginning
  honest : ∀ format ∈ state.formats, format.Honest
  told : ∀ number format answer, state.formats[number]? = some format →
    format.stage = .answered answer → number ∈ state.shared.stopped → answer = .cancelled
  stops : ∀ stop ∈ state.stops, stop.underWay = true → ∃ number format, stop.operation = some number ∧
    state.shared.last = some number ∧ number ∈ state.shared.stopped ∧
    state.formats[number]? = some format ∧ stop.Aims format.volume ∧
    (stop.cuts = true → format.stage = .erasing)
  own : state.shared.foreign = false
  running : state.shared.stray = false

theorem sound_start : Sound {} where
  alone number format hformat := by simp at hformat
  known number hlast := by cases hlast
  unknown _ := Registry.recordOf_empty formatId
  begun := by simp
  honest := by simp
  told number format answer hformat := by simp at hformat
  stops := by simp
  own := rfl
  running := rfl

theorem Sound.safe {state : State} (hsound : Sound state) : Safe state where
  ok number format detail hformat hstage := by
    have hhonest := hsound.honest format (List.mem_of_getElem? hformat)
    rw [Format.Honest, hstage] at hhonest
    refine ⟨hhonest, fun hstopped ↦ ?_⟩
    cases hsound.told number format _ hformat hstage hstopped
  cancelled := hsound.told
  own := hsound.own
  running := hsound.running

section Sound

variable {state : State} (hsound : Sound state)

include hsound

theorem Sound.record_running {record : Record}
    (hrecord : state.shared.registry.recordOf formatId = some record) :
    ∃ number format, state.shared.last = some number ∧ state.formats[number]? = some format ∧
      Shows (number ∈ state.shared.stopped) format.volume record := by
  cases hlast : state.shared.last with
  | none =>
    rw [hsound.unknown hlast] at hrecord
    cases hrecord
  | some number =>
    obtain ⟨format, hformat, hfits⟩ := hsound.known number hlast
    exact ⟨number, format, rfl, hformat, hfits.placed.shows hrecord⟩

end Sound

end DhcpServer.Files.FormatStops
