import DhcpServer.Core.JobRegistry
import DhcpServer.Files.FileManager
import DhcpServer.Library.Run

/-!
# Stopping a format

The requests for a format with the tasks they create, and the stops of the scheduler page with the tasks
that cut the power of a card. They share the record of the registry, `g_formatAbandoned`,
`g_formatCallDone` and `formatting_`; every read and every write of one of these is a step, and the steps
of all of them come in any order. The HTTP and the HTTPS server each serve requests, so the handlers are
interleaved as well. An erase, the creation of a task and the wait before a power cut take as long as they
like.
-/

namespace DhcpServer.Files.FormatStops

open Library Core.JobRegistry

def formatId : Bytes := ascii "format"

inductive Answer
  /-- a format is already running -/
  | conflict
  /-- too many operations are running -/
  | tooMany
  /-- cannot start the format -/
  | cannotStart
  | cancelled
  | result (status : FileStatus) (detail : Bytes)
deriving DecidableEq

inductive Stage
  /-- the handler has found no format in the registry -/
  | beginning
  | clearingAbandoned
  | clearingCallDone
  | creating
  /-- there is no task, the client has been told so, and the record is still there -/
  | dropping
  /-- the task looks for a stop for the first time -/
  | looking
  /-- `FileManager::format` looks for the volume -/
  | finding
  | askingFormat
  | askingCheck
  | askingRepair
  | claiming
  | erasing
  | releasing
  | noting
  /-- the task looks for a stop for the second time -/
  | judging
  | exchanging (cancelled : Bool)
  | finishing (cancelled : Bool)
  | answering (cancelled : Bool)
  | answered (answer : Answer)
deriving DecidableEq

structure Format where
  volume : Bytes
  stage : Stage := .beginning
  status : FileStatus := .ok
  detail : Bytes := []
  /-- what the erase of the volume has returned -/
  erased : Option Bool := none
  /-- it has set `g_formatCallDone` -/
  noted : Bool := false

structure Chance where
  now : Nat := 0
  holds : Bool := true
  detail : Bytes := []

structure Shared where
  registry : Registry := .empty
  abandoned : Bool := false
  callDone : Bool := false
  formatting : Bool := false
  /-- the format that has made a record last -/
  last : Option Nat := none
  /-- the formats for which a stop has been accepted -/
  stopped : List Nat := []
  /-- a format has finished the record of another one -/
  foreign : Bool := false
  /-- the power was cut while the erase of the stopped format did not run -/
  stray : Bool := false

namespace Format

/-- `jobs.finish`, as a format calls it. -/
def finish (shared : Shared) (number : Nat) (state : JobState) (detail : Bytes) (now : Nat) : Shared :=
  { shared with
    registry := shared.registry.finish formatId state detail now
    foreign := shared.foreign || (shared.registry.contains formatId && shared.last != some number) }

/-- `jobs.finish` at the end of the task. -/
def conclude (shared : Shared) (number : Nat) (format : Format) (cancelled : Bool) (now : Nat) : Shared :=
  if cancelled then finish shared number .cancelled format.volume now
  else if format.status = .ok then finish shared number .done format.volume now
  else finish shared number .failed format.detail now

/-- `FileManager::format` returns without an erase. -/
def refuse (format : Format) (status : FileStatus) (detail : Bytes) : Format :=
  { format with stage := .noting, status, detail }

def go (format : Format) (stage : Stage) : Format := { format with stage }

def advance (shared : Shared) (number : Nat) (format : Format) (chance : Chance) : Shared × Format :=
  match format.stage with
  | .beginning =>
    let begun := shared.registry.begin formatId (ascii "jobs.format") format.volume 0 .none 0 chance.now
    if begun.2 then
      ({ shared with registry := begun.1, last := some number }, format.go .clearingAbandoned)
    else (shared, format.go (.answered .tooMany))
  | .clearingAbandoned => ({ shared with abandoned := false }, format.go .clearingCallDone)
  | .clearingCallDone => ({ shared with callDone := false }, format.go .creating)
  | .creating => (shared, format.go (if chance.holds then .looking else .dropping))
  | .dropping =>
    (finish shared number .failed (ascii "no task") chance.now, format.go (.answered .cannotStart))
  | .looking =>
    (shared, format.go (if shared.registry.cancelRequested formatId then .exchanging true else .finding))
  | .finding =>
    (shared, if chance.holds then format.go .askingFormat else format.refuse .notFound [])
  | .askingFormat =>
    (shared, if shared.formatting then format.refuse .busy (ascii "a format is already running")
      else format.go .askingCheck)
  | .askingCheck =>
    (shared, if chance.holds then format.go .askingRepair
      else format.refuse .busy (ascii "a volume check is running"))
  | .askingRepair =>
    (shared, if chance.holds then format.go .claiming
      else format.refuse .busy (ascii "a repair is running"))
  | .claiming => ({ shared with formatting := true }, format.go .erasing)
  | .erasing =>
    (shared, { format with
      stage := .releasing
      erased := some chance.holds
      status := if chance.holds then .ok else .ioError
      detail := if chance.holds then [] else chance.detail })
  | .releasing => ({ shared with formatting := false }, format.go .noting)
  | .noting => ({ shared with callDone := true }, { format with stage := .judging, noted := true })
  | .judging => (shared, format.go (.exchanging (shared.registry.cancelRequested formatId)))
  | .exchanging cancelled =>
    ({ shared with abandoned := false },
      format.go (if shared.abandoned then .answering true else .finishing cancelled))
  | .finishing cancelled =>
    (format.conclude shared number cancelled chance.now, format.go (.answering cancelled))
  | .answering cancelled =>
    (shared, format.go
      (.answered (if cancelled then .cancelled else .result format.status format.detail)))
  | .answered answer => (shared, format.go (.answered answer))

end Format

/-- What a stop does next; the last two are steps of the task that cuts the power. -/
inductive StopStage
  /-- the handler has found a format in the registry -/
  | requesting
  /-- the stop has been accepted -/
  | listing
  | abandoning (volume : Bytes)
  | finishing (volume : Bytes)
  | starting (volume : Bytes)
  | waiting (volume : Bytes)
  /-- `g_formatCallDone` has been found clear -/
  | cutting (volume : Bytes)
  | done

structure Stop where
  stage : StopStage := .requesting
  /-- the format for which it has been accepted -/
  operation : Option Nat := none

def Erases (formats : List Format) (operation : Option Nat) (volume : Bytes) : Prop :=
  ∃ number ∈ operation, ∃ format ∈ formats[number]?, format.stage = .erasing ∧ format.volume = volume

instance (formats : List Format) (operation : Option Nat) (volume : Bytes) :
    Decidable (Erases formats operation volume) :=
  inferInstanceAs (Decidable (∃ number ∈ operation, ∃ format ∈ formats[number]?, _))

namespace Stop

def go (stop : Stop) (stage : StopStage) : Stop := { stop with stage }

def advance (shared : Shared) (formats : List Format) (stop : Stop) (chance : Chance) : Shared × Stop :=
  match stop.stage with
  | .requesting =>
    let asked := shared.registry.requestCancel formatId
    if asked.2 then
      ({ shared with registry := asked.1, stopped := shared.last.toList ++ shared.stopped },
        { stop with stage := .listing, operation := shared.last })
    else (shared, stop.go .done)
  | .listing =>
    (shared, stop.go (.abandoning
      ((shared.registry.recordOf formatId).elim [] fun record ↦ record.job.arg)))
  | .abandoning volume => ({ shared with abandoned := true }, stop.go (.finishing volume))
  | .finishing volume =>
    let registry := shared.registry.finish formatId .cancelled (ascii "stopped") chance.now
    ({ shared with registry }, stop.go (.starting volume))
  | .starting volume =>
    (shared, stop.go (if volume ≠ [] ∧ chance.holds then .waiting volume else .done))
  | .waiting volume => (shared, stop.go (if shared.callDone then .done else .cutting volume))
  | .cutting volume =>
    ({ shared with stray := shared.stray || !decide (Erases formats stop.operation volume) }, stop.go .done)
  | .done => (shared, stop.go .done)

end Stop

structure State where
  shared : Shared := {}
  formats : List Format := []
  stops : List Stop := []

inductive Event
  /-- a request for a format has arrived and looks for a format in the registry -/
  | request (volume : Bytes)
  | format (number : Nat) (chance : Chance)
  /-- a stop has arrived and looks for a format in the registry -/
  | stop
  | stopNext (number : Nat) (chance : Chance)
  /-- a call for another operation -/
  | call (call : Call)

def step (state : State) : Event → Option State
  | .request volume =>
    let stage := if state.shared.registry.contains formatId then .answered .conflict else .beginning
    some { state with formats := state.formats ++ [{ volume, stage }] }
  | .format number chance =>
    match state.formats[number]? with
    | none => none
    | some format =>
      let (shared, moved) := format.advance state.shared number chance
      some { state with shared, formats := state.formats.set number moved }
  | .stop =>
    let stage := if state.shared.registry.contains formatId then .requesting else .done
    some { state with stops := state.stops ++ [{ stage }] }
  | .stopNext number chance =>
    match state.stops[number]? with
    | none => none
    | some stop =>
      let (shared, moved) := stop.advance state.shared state.formats chance
      some { state with shared, stops := state.stops.set number moved }
  | .call call =>
    if call.id = formatId then none
    else
      some { state with
        shared := { state.shared with registry := call.apply state.shared.registry } }

def Step (state : State) (event : Event) (state' : State) : Prop := step state event = some state'

structure Safe (state : State) : Prop where
  /-- `ok` stands for the erase of this client, which nobody has stopped -/
  ok : ∀ number format detail, state.formats[number]? = some format →
    format.stage = .answered (.result .ok detail) →
    format.erased = some true ∧ number ∉ state.shared.stopped
  cancelled : ∀ number format answer, state.formats[number]? = some format →
    format.stage = .answered answer → number ∈ state.shared.stopped → answer = .cancelled
  own : state.shared.foreign = false
  running : state.shared.stray = false

namespace Format

def underWay (format : Format) : Bool :=
  match format.stage with
  | .beginning | .answered _ => false
  | _ => true

/-- The record is still there, and the answer will not be that the format was cancelled. -/
def decided (format : Format) : Bool :=
  match format.stage with
  | .dropping | .finishing false => true
  | _ => false

end Format

namespace Stop

/-- The stop has been accepted, and neither it nor its power cut is over. -/
def underWay (stop : Stop) : Bool :=
  match stop.stage with
  | .requesting | .done => false
  | _ => true

/-- The stop has been accepted and has not set `g_formatAbandoned`. -/
def accepted (stop : Stop) : Bool :=
  match stop.stage with
  | .listing | .abandoning _ => true
  | _ => false

/-- The stop has set `g_formatAbandoned` and has not finished the record. -/
def ending (stop : Stop) : Bool :=
  match stop.stage with
  | .finishing _ => true
  | _ => false

def cuts (stop : Stop) : Bool :=
  match stop.stage with
  | .cutting _ => true
  | _ => false

end Stop

/-- A format makes its record when no other one, no accepted stop and no power cut is under way; its task
is not refused once it has been stopped; its erase does not return between the last look and the cut; and
its task does not take `g_formatAbandoned` for clear while a stop is about to set it. -/
def Stage.Orderly (state : State) (number : Nat) (chance : Chance) : Stage → Prop
  | .beginning =>
    (∀ other ∈ state.formats, other.underWay = false) ∧ ∀ stop ∈ state.stops, stop.underWay = false
  | .creating => chance.holds = true ∨ number ∉ state.shared.stopped
  | .erasing => ∀ stop ∈ state.stops, stop.cuts = false
  | .exchanging false => state.shared.abandoned = true ∨ ∀ stop ∈ state.stops, stop.accepted = false
  | _ => True

/-- A stop is not requested when the answer is settled, and does not set `g_formatAbandoned` before the
request has cleared it; the power cut looks while the erase runs or after its return has been noted. -/
def StopStage.Orderly (state : State) (operation : Option Nat) : StopStage → Prop
  | .requesting => ∀ format ∈ state.formats, format.decided = false
  | .abandoning _ => ∀ format ∈ state.formats, format.stage ≠ .clearingAbandoned
  | .waiting _ => ∀ number ∈ operation, ∀ format ∈ state.formats[number]?,
    format.stage = .erasing ∨ format.noted = true
  | _ => True

def Orderly (state : State) : Event → Prop
  | .format number chance =>
    ∀ format ∈ state.formats[number]?, format.stage.Orderly state number chance
  | .stopNext number _ => ∀ stop ∈ state.stops[number]?, stop.stage.Orderly state stop.operation
  | .request _ | .stop | .call _ => True

instance (state : State) (number : Nat) (chance : Chance) :
    (stage : Stage) → Decidable (stage.Orderly state number chance)
  | .beginning => inferInstanceAs (Decidable (_ ∧ _))
  | .creating | .exchanging false => inferInstanceAs (Decidable (_ ∨ _))
  | .erasing => inferInstanceAs (Decidable (∀ stop ∈ state.stops, _))
  | .clearingAbandoned | .clearingCallDone | .dropping | .looking | .finding | .askingFormat
  | .askingCheck | .askingRepair | .claiming | .releasing | .noting | .judging | .exchanging true
  | .finishing _ | .answering _ | .answered _ => inferInstanceAs (Decidable True)

instance (state : State) (operation : Option Nat) :
    (stage : StopStage) → Decidable (stage.Orderly state operation)
  | .requesting => inferInstanceAs (Decidable (∀ format ∈ state.formats, _))
  | .abandoning _ => inferInstanceAs (Decidable (∀ format ∈ state.formats, _))
  | .waiting _ => inferInstanceAs (Decidable (∀ number ∈ operation, _))
  | .listing | .finishing _ | .starting _ | .cutting _ | .done => inferInstanceAs (Decidable True)

instance (state : State) : (event : Event) → Decidable (Orderly state event)
  | .format number _ => inferInstanceAs (Decidable (∀ format ∈ state.formats[number]?, _))
  | .stopNext number _ => inferInstanceAs (Decidable (∀ stop ∈ state.stops[number]?, _))
  | .request _ | .stop | .call _ => inferInstanceAs (Decidable True)

end DhcpServer.Files.FormatStops
