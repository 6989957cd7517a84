import DhcpServer.Library.Bytes
import DhcpServer.Library.FileTree
import DhcpServer.Library.Run

/-!
# The volume check and the repair

`checkWalk` and `repairRun` next to the other file operations, one directory, one entry or one removal at
a time. Every call of the file system may say what it likes. A file is known by the number of the operation
that has put it where it is; a finding of the walk remembers the volume as it was at that moment.
-/

namespace DhcpServer.Files

open Library

namespace VolumeRepair

def kCheckMaxFiles : Nat := 4096
def kCheckMaxErrors : Nat := 64
def kCheckBudgetBytes : Nat := 64 * 1024 * 1024
def kRepairMaxRounds : Nat := 20

abbrev Path := List Bytes

abbrev Contents := FileTree Bytes Nat

/-- `CheckError`, and the volume when it was noted. -/
structure Finding where
  volume : Bytes
  path : Path
  seen : Contents

structure CheckReport where
  busy : Bool := false
  finished : Bool := false
  truncated : Bool := false
  cancelled : Bool := false
  volume : Bytes := []
  dirs : Nat := 0
  files : Nat := 0
  badEntries : Nat := 0
  bytes : Nat := 0
  errors : List Finding := []

/-- The walk between two calls: the stack of directories, the one that is open, and what is left of the
limits. -/
structure Walk where
  pending : List Path := [[]]
  dir : Option Path := none
  processed : Nat := 0
  budgetLeft : Nat := kCheckBudgetBytes
  report : CheckReport

def Walk.noteError (walk : Walk) (contents : Contents) (path : Path) : Walk :=
  let errors := walk.report.errors
  { walk with
    report := { walk.report with
      badEntries := walk.report.badEntries + 1
      errors := if errors.length < kCheckMaxErrors then errors ++ [⟨walk.report.volume, path, contents⟩]
        else errors } }

/-- The walk closes its directory and looks at nothing more. -/
def Walk.truncate (walk : Walk) : Walk :=
  { walk with dir := none, pending := [], report := { walk.report with truncated := true } }

/-- What the calls say about an entry: a file has a size, can be opened or not, and gives so many bytes
before the reading ends or fails. -/
inductive Found
  | unstatable
  | dir
  | file (size : Nat) (opens : Bool) (readable : Nat) (ioError : Bool)

/-- The body of the inner loop of `checkWalk`. -/
def Walk.visit (walk : Walk) (contents : Contents) (path : Path) : Found → Walk
  | .unstatable => walk.noteError contents path
  | .dir => { walk with pending := path :: walk.pending }
  | .file size opens readable ioError =>
    if kCheckMaxFiles ≤ walk.processed then walk.truncate
    else if !opens then { walk with processed := walk.processed + 1 }.noteError contents path
    else
      let read := min readable (min size walk.budgetLeft)
      let walk := { walk with
        processed := walk.processed + 1
        budgetLeft := walk.budgetLeft - read
        report := { walk.report with bytes := walk.report.bytes + read } }
      if read < size ∧ walk.budgetLeft = 0 then walk.truncate
      else if ioError ∨ read ≠ size then walk.noteError contents path
      else { walk with report := { walk.report with files := walk.report.files + 1 } }

inductive RepairPhase
  | idle
  /-- The task is there and has not read the report yet. -/
  | starting
  /-- A list is processed: all of it, what is left of it, and how many entries of it are gone. -/
  | batch (paths left : List Finding) (deletedHere : Nat)
  /-- The walk after a list is awaited. -/
  | walking (paths : List Finding)

def RepairPhase.left : RepairPhase → List Finding
  | .batch _ left _ => left
  | _ => []

structure Repair where
  busy : Bool := false
  volume : Bytes := []
  phase : RepairPhase := .idle
  round : Nat := 0
  deleted : Nat := 0
  remaining : Nat := 0
  failed : Nat := 0

def Repair.finish (repair : Repair) : Repair := { repair with busy := false, phase := .idle }

def samePaths (first second : List Finding) : Bool := first.map Finding.path == second.map Finding.path

/-- A call of `removeTree` by the repair, with the volume before and after it. -/
structure Removal where
  volume : Bytes
  finding : Finding
  before : Contents
  after : Contents

structure State where
  contents : Bytes → Contents := fun _ ↦ .empty
  check : CheckReport := {}
  walk : Option Walk := none
  repair : Repair := {}
  next : Nat := 0
  removals : List Removal := []

def State.setContents (state : State) (volume : Bytes) (contents : Contents) : State :=
  { state with contents := Function.update state.contents volume contents }

def State.startCheck (state : State) (volume : Bytes) (created : Bool) : State :=
  if created then
    { state with check := { busy := true, volume }, walk := some { report := { volume } } }
  else { state with check := { finished := true, volume } }

def State.finishCheck (state : State) (report : CheckReport) : State :=
  { state with check := { report with busy := false, finished := true }, walk := none }

/-- What the repair does with one entry of the list, where `sticks` says what cannot be removed. The mount
point itself never goes. -/
def State.removeEntry (state : State) (finding : Finding) (paths left : List Finding) (deletedHere : Nat)
    (sticks : Path → Bool) : State :=
  let volume := state.repair.volume
  let before := state.contents volume
  let after := before.removeTree finding.path sticks
  let repair :=
    if finding.path ≠ [] ∧ before.find finding.path ≠ none ∧ after.find finding.path = none then
      { state.repair with
        phase := .batch paths left (deletedHere + 1)
        deleted := state.repair.deleted + 1
        remaining := state.repair.remaining - 1 }
    else
      { state.repair with phase := .batch paths left deletedHere, failed := state.repair.failed + 1 }
  { state.setContents volume after with
    repair, removals := state.removals ++ [⟨volume, finding, before, after⟩] }

/-- The list of a report, as far as the loop goes on with it. -/
def State.takeList (state : State) (round : Nat) : State :=
  { state with
    repair := { state.repair with
      phase := .batch state.check.errors state.check.errors 0
      round
      remaining := state.check.badEntries } }

def State.finishRepair (state : State) : State := { state with repair := state.repair.finish }

inductive Event
  /-- a file is uploaded, saved or copied to a path -/
  | put (volume : Bytes) (path : Path)
  | mkdir (volume : Bytes) (path : Path)
  | rename (volume : Bytes) (source target : Path)
  | remove (volume : Bytes) (path : Path) (sticks : Path → Bool)
  | format (volume : Bytes)
  | checkStart (volume : Bytes) (created : Bool)
  /-- the walk takes the next directory -/
  | openDir (opens : Bool)
  /-- the walk reads an entry of the open directory -/
  | entry (name : Bytes) (found : Found)
  | closeDir
  /-- the walk is told to stop, or is through -/
  | endWalk (cancelled : Bool)
  | repairStart (volume : Bytes)
  /-- the repair task reads the report it starts from -/
  | takeReport
  | removeNext (sticks : Path → Bool)
  /-- the repair starts the next walk -/
  | nextWalk (created : Bool)
  /-- the repair looks whether the walk has ended -/
  | poll
  /-- the repair is told to stop, or its volume is not mounted -/
  | stopRepair

def step (state : State) : Event → Option State
  | .put volume path =>
    ((state.contents volume).write path state.next).map fun written ↦
      { state.setContents volume written with next := state.next + 1 }
  | .mkdir volume path => ((state.contents volume).mkdir path).map (state.setContents volume)
  | .rename volume source target =>
    ((state.contents volume).rename source target).map (state.setContents volume)
  | .remove volume path sticks =>
    if path = [] then none
    else some (state.setContents volume ((state.contents volume).removeTree path sticks))
  | .format volume =>
    if state.check.busy ∨ state.repair.busy then none else some (state.setContents volume .empty)
  | .checkStart volume created =>
    if state.check.busy then none else some (state.startCheck volume created)
  | .openDir opens =>
    match state.walk with
    | some walk =>
      match walk.dir, walk.pending with
      | none, dir :: pending =>
        let walk := { walk with pending, report := { walk.report with dirs := walk.report.dirs + 1 } }
        if opens then some { state with walk := some { walk with dir := some dir } }
        else some { state with walk := some (walk.noteError (state.contents walk.report.volume) dir) }
      | _, _ => none
    | none => none
  | .entry name found =>
    match state.walk with
    | some walk =>
      match walk.dir with
      | some dir =>
        some { state with walk := some (walk.visit (state.contents walk.report.volume) (dir ++ [name]) found) }
      | none => none
    | none => none
  | .closeDir =>
    match state.walk with
    | some walk => some { state with walk := some { walk with dir := none } }
    | none => none
  | .endWalk cancelled =>
    match state.walk with
    | some walk =>
      if walk.dir = none ∧ (cancelled ↔ walk.pending ≠ []) then
        some (state.finishCheck { walk.report with cancelled })
      else none
    | none => none
  | .repairStart volume =>
    let check := state.check
    if check.busy ∨ check.finished = false ∨ check.volume ≠ volume ∨ check.badEntries = 0 ∨
        check.errors.isEmpty ∨ state.repair.busy then none
    else
      some { state with
        repair := { busy := true, volume, phase := .starting, remaining := check.badEntries } }
  | .takeReport =>
    match state.repair.phase with
    | .starting =>
      if state.check.errors.isEmpty then some state.finishRepair else some (state.takeList 1)
    | _ => none
  | .removeNext sticks =>
    match state.repair.phase with
    | .batch paths (finding :: left) deletedHere =>
      some (state.removeEntry finding paths left deletedHere sticks)
    | _ => none
  | .nextWalk created =>
    match state.repair.phase with
    | .batch paths [] deletedHere =>
      if deletedHere = 0 ∨ state.check.busy then some state.finishRepair
      else
        let started := state.startCheck state.repair.volume created
        if created then some { started with repair := { state.repair with phase := .walking paths } }
        else some started.finishRepair
    | _ => none
  | .poll =>
    match state.repair.phase with
    | .walking paths =>
      let check := state.check
      if check.busy then some state
      else if check.cancelled ∨ check.badEntries = 0 ∨ check.errors.isEmpty ∨ samePaths check.errors paths ∨
          kRepairMaxRounds ≤ state.repair.round then some state.finishRepair
      else some (state.takeList (state.repair.round + 1))
    | _ => none
  | .stopRepair =>
    match state.repair.phase with
    | .idle => none
    | _ => some state.finishRepair

def Step (state : State) (event : Event) (state' : State) : Prop := step state event = some state'

/-- The repair works on a finding of its own volume, other than the root, and a file it takes away is at or
under the path found and was there when it was found. -/
structure Removal.Justified (removal : Removal) : Prop where
  notRoot : removal.finding.path ≠ []
  volume : removal.finding.volume = removal.volume
  files : ∀ (path : Path) (file : Nat), removal.before.find path = some (.file file) →
    removal.after.find path ≠ some (.file file) →
      removal.finding.path <+: path ∧ removal.finding.seen.find path = some (.file file)

def RemovesOnlyFound (state : State) : Prop := ∀ removal ∈ state.removals, removal.Justified

/-- The findings a repair may still act on: those of the report, of the walk that runs, and of the list that
is processed. -/
def State.findings (state : State) : List Finding :=
  state.check.errors ++ (state.walk.elim [] fun walk ↦ walk.report.errors) ++ state.repair.phase.left

/-- The walk can open the root; nothing is put or moved to a place at or under a path that is found; and the
report a repair takes is one of its volume. -/
def Careful (state : State) : Event → Prop
  | .openDir opens => opens = false → ∀ walk, state.walk = some walk → walk.pending.head? ≠ some []
  | .put volume path =>
    ∀ finding ∈ state.findings, finding.volume = volume → ¬ finding.path <+: path
  | .rename volume _ target =>
    ∀ finding ∈ state.findings, finding.volume = volume →
      ¬ finding.path <+: target ∧ ¬ target <+: finding.path
  | .takeReport => state.check.errors.isEmpty = false → state.check.volume = state.repair.volume
  | .poll =>
    state.check.busy = false → state.check.errors.isEmpty = false → state.check.volume = state.repair.volume
  | _ => True

end VolumeRepair

end DhcpServer.Files
