import DhcpServer.Library.Bytes
import DhcpServer.Library.Run

/-!
# A format and the jobs of its volume

A format that begins while nobody else is at a start for its volume keeps every later start away with its
flag, and the ones before it are done when it asks for them; so it has the volume to itself unless a
transfer is there, for which it does not ask.
-/

/-!
## Formats and the jobs that use a volume

`FileManager::format`, `checkStart`, `repairStart` and `transferStart` as their tasks run them: each read
of a flag and each write of one is a step, and between any two steps of one task the others go on. A
check, a repair and a transfer are marked busy before their task is created. A format asks for checks and
repairs, and a transfer asks for formats; a format never asks for transfers.
-/

namespace DhcpServer.Files

open Library

namespace FormatExclusion

/-! ## The flags -/

/-- `CheckReport`, as far as the starts read it. -/
structure CheckReport where
  busy : Bool := false
  finished : Bool := false
  volume : Bytes := []
  badEntries : Nat := 0
  errors : List Bytes := []

/-- A repair or a transfer: its busy mark, whether its task is there, and the volumes it works on. -/
structure Job where
  busy : Bool := false
  task : Bool := false
  volumes : List Bytes := []

/-- A call of one of the four operations, as far as it has come. -/
inductive Phase
  | waiting
  /-- `formatting_` has been found clear. -/
  | formatFlag (volume : Bytes)
  /-- No check has been found. -/
  | formatCheck (volume : Bytes)
  /-- No repair has been found. -/
  | formatRepair (volume : Bytes)
  /-- `formatting_` is set and the volume is being formatted. -/
  | formatting (volume : Bytes)
  /-- `resolve` has found `formatting_` clear. -/
  | checkResolved (volume : Bytes)
  | checkTested (volume : Bytes)
  | checkClaimed
  | repairResolved (volume : Bytes)
  | repairTested (volume : Bytes)
  /-- A finished check of the volume has been found. -/
  | repairChecked (volume : Bytes)
  | repairClaimed
  /-- The source has been resolved, the destination has not. -/
  | transferResolved (source destination : Bytes)
  | transferTested (source destination : Bytes)
  | transferClaimed
  | done
deriving DecidableEq

structure State where
  formatting : Bool := false
  check : CheckReport := {}
  checkTask : Bool := false
  repair : Job := {}
  transfer : Job := {}
  callers : Nat → Phase := fun _ ↦ .waiting

def State.setPhase (state : State) (caller : Nat) (phase : Phase) : State :=
  { state with callers := Function.update state.callers caller phase }

inductive Operation
  | format (volume : Bytes)
  | check (volume : Bytes)
  | repair (volume : Bytes)
  | transfer (source destination : Bytes)

/-- What a call is after its first read of `formatting_`. -/
def Operation.first : Operation → Phase
  | .format volume => .formatFlag volume
  | .check volume => .checkResolved volume
  | .repair volume => .repairResolved volume
  | .transfer source destination => .transferResolved source destination

inductive Event
  /-- a call reads `formatting_` for the first time -/
  | begin (caller : Nat) (operation : Operation)
  /-- the next read or write of a flag -/
  | next (caller : Nat)
  /-- any other reason to refuse: the volume is not mounted, a mutex is missing -/
  | giveUp (caller : Nat)
  /-- `xTaskCreate` -/
  | create (caller : Nat) (fails : Bool)
  | formatEnds (caller : Nat)
  /-- `checkFinish` with what the walk has found -/
  | checkEnds (badEntries : Nat) (errors : List Bytes)
  | repairEnds
  /-- the engine publishes its last report -/
  | transferEnds
  | transferLeaves

def step (state : State) : Event → Option State
  | .begin caller operation =>
    match state.callers caller with
    | .waiting => some (state.setPhase caller (if state.formatting then .done else operation.first))
    | _ => none
  | .next caller =>
    match state.callers caller with
    | .formatFlag volume =>
      some (state.setPhase caller (if state.check.busy then .done else .formatCheck volume))
    | .formatCheck volume =>
      some (state.setPhase caller (if state.repair.busy then .done else .formatRepair volume))
    | .formatRepair volume =>
      some ({ state with formatting := true }.setPhase caller (.formatting volume))
    | .checkResolved volume =>
      some (state.setPhase caller (if state.formatting then .done else .checkTested volume))
    | .checkTested volume =>
      if state.check.busy then some (state.setPhase caller .done)
      else some ({ state with check := { busy := true, volume } }.setPhase caller .checkClaimed)
    | .repairResolved volume =>
      some (state.setPhase caller (if state.formatting then .done else .repairTested volume))
    | .repairTested volume =>
      let check := state.check
      if check.busy ∨ check.finished = false ∨ check.volume ≠ volume ∨ check.badEntries = 0 ∨
          check.errors = [] then some (state.setPhase caller .done)
      else some (state.setPhase caller (.repairChecked volume))
    | .repairChecked volume =>
      if state.repair.busy then some (state.setPhase caller .done)
      else
        some ({ state with repair := { state.repair with busy := true, volumes := [volume] } }.setPhase caller
          .repairClaimed)
    | .transferResolved source destination =>
      some (state.setPhase caller
        (if state.formatting then .done else .transferTested source destination))
    | .transferTested source destination =>
      if state.transfer.busy ∨ state.transfer.task then some (state.setPhase caller .done)
      else
        some ({ state with transfer := { busy := true, volumes := [source, destination] } }.setPhase caller
          .transferClaimed)
    | _ => none
  | .giveUp caller =>
    match state.callers caller with
    | .formatting _ | .checkClaimed | .repairClaimed | .transferClaimed => none
    | _ => some (state.setPhase caller .done)
  | .create caller fails =>
    match state.callers caller with
    | .checkClaimed =>
      if fails then
        some ({ state with check := { state.check with busy := false, finished := true } }.setPhase caller
          .done)
      else some ({ state with checkTask := true }.setPhase caller .done)
    | .repairClaimed =>
      if fails then
        some ({ state with repair := { state.repair with busy := false } }.setPhase caller .done)
      else some ({ state with repair := { state.repair with task := true } }.setPhase caller .done)
    | .transferClaimed =>
      if fails then
        some ({ state with transfer := { state.transfer with busy := false } }.setPhase caller .done)
      else some ({ state with transfer := { state.transfer with task := true } }.setPhase caller .done)
    | _ => none
  | .formatEnds caller =>
    match state.callers caller with
    | .formatting _ => some ({ state with formatting := false }.setPhase caller .done)
    | _ => none
  | .checkEnds badEntries errors =>
    if state.checkTask then
      let check := { state.check with busy := false, finished := true, badEntries, errors }
      some { state with check, checkTask := false }
    else none
  | .repairEnds =>
    if state.repair.task then
      some { state with repair := { state.repair with busy := false, task := false } }
    else none
  | .transferEnds =>
    if state.transfer.task then
      some { state with transfer := { state.transfer with busy := false } }
    else none
  | .transferLeaves =>
    if state.transfer.task ∧ state.transfer.busy = false then
      some { state with transfer := { state.transfer with task := false } }
    else none

def Step (state : State) (event : Event) (state' : State) : Prop := step state event = some state'

def Job.Uses (job : Job) (volume : Bytes) : Prop := job.busy ∧ job.task ∧ volume ∈ job.volumes

def State.Checks (state : State) (volume : Bytes) : Prop :=
  state.check.busy ∧ state.checkTask ∧ state.check.volume = volume

/-- No volume is formatted while a check, a repair or a transfer uses it. -/
def Exclusive (state : State) : Prop :=
  ∀ caller volume, state.callers caller = .formatting volume →
    ¬ state.Checks volume ∧ ¬ state.repair.Uses volume ∧ ¬ state.transfer.Uses volume

def Phase.formats : Phase → Option Bytes
  | .formatFlag volume | .formatCheck volume | .formatRepair volume | .formatting volume => some volume
  | _ => none

/-- The volumes of another call between its first read and its busy mark. -/
def Phase.starts : Phase → List Bytes
  | .checkResolved volume | .checkTested volume => [volume]
  | .repairResolved volume | .repairTested volume | .repairChecked volume => [volume]
  | .transferResolved source destination | .transferTested source destination => [source, destination]
  | _ => []

/-- No format begins next to another one that has begun, next to the start of a job that will use its
volume, or while a transfer uses it; and no job that will use a volume begins its start next to a format of
it. -/
def Apart (state : State) : Event → Prop
  | .begin _ (.format volume) =>
    state.formatting = false → ¬ (state.transfer.busy ∧ volume ∈ state.transfer.volumes) ∧
        ∀ other, (state.callers other).formats = none ∧ volume ∉ (state.callers other).starts
  | .begin _ operation =>
    state.formatting = false →
      ∀ volume ∈ operation.first.starts, ∀ other, (state.callers other).formats ≠ some volume
  | _ => True

end FormatExclusion

end DhcpServer.Files

namespace DhcpServer.Files

open Library

namespace FormatExclusion

/-! ## The invariant -/

def Phase.pastCheck : Phase → Option Bytes
  | .formatCheck volume | .formatRepair volume | .formatting volume => some volume
  | _ => none

def Phase.pastRepair : Phase → Option Bytes
  | .formatRepair volume | .formatting volume => some volume
  | _ => none

structure Guarded (state : State) : Prop where
  sole : ∀ first second volume volume', (state.callers first).formats = some volume →
    (state.callers second).formats = some volume' → first = second
  flag : state.formatting = true ↔ ∃ caller volume, state.callers caller = .formatting volume
  apart : ∀ first second volume, (state.callers first).formats = some volume →
    volume ∉ (state.callers second).starts
  check : ∀ caller volume, (state.callers caller).pastCheck = some volume →
    ¬ (state.check.busy ∧ state.check.volume = volume)
  repair : ∀ caller volume, (state.callers caller).pastRepair = some volume →
    ¬ (state.repair.busy ∧ volume ∈ state.repair.volumes)
  transfer : ∀ caller volume, (state.callers caller).formats = some volume →
    ¬ (state.transfer.busy ∧ volume ∈ state.transfer.volumes)

variable {state state' : State} {caller : Nat} {phase : Phase}

variable {volume : Bytes}

theorem Phase.formats_of_pastCheck (hpast : phase.pastCheck = some volume) :
    phase.formats = some volume := by
  cases phase <;> first | exact hpast | cases hpast

theorem Phase.formats_of_pastRepair (hpast : phase.pastRepair = some volume) :
    phase.formats = some volume := by
  cases phase <;> first | exact hpast | cases hpast

/-- What one caller can do to the others: a new format finds the volume free, a new start finds no format
of its volumes, and a busy mark is set only by a start that uses the volume. -/
structure Move (state state' : State) (caller : Nat) (phase : Phase) : Prop where
  callers : state'.callers = Function.update state.callers caller phase
  flag : state'.formatting = true ↔ (∃ volume, phase = .formatting volume) ∨
    ∃ other, other ≠ caller ∧ ∃ volume, state.callers other = .formatting volume
  formats : ∀ volume, phase.formats = some volume → (state.callers caller).formats = some volume ∨
    ¬ (state.transfer.busy ∧ volume ∈ state.transfer.volumes) ∧
      ∀ other, (state.callers other).formats = none ∧ volume ∉ (state.callers other).starts
  starts : ∀ volume ∈ phase.starts, volume ∈ (state.callers caller).starts ∨
    ∀ other, (state.callers other).formats ≠ some volume
  check : state'.check.busy → state.check.busy ∧ state'.check.volume = state.check.volume ∨
    state'.check.volume ∈ (state.callers caller).starts
  repair : ∀ volume, state'.repair.busy → volume ∈ state'.repair.volumes →
    state.repair.busy ∧ volume ∈ state.repair.volumes ∨ volume ∈ (state.callers caller).starts
  transfer : ∀ volume, state'.transfer.busy → volume ∈ state'.transfer.volumes →
    state.transfer.busy ∧ volume ∈ state.transfer.volumes ∨ volume ∈ (state.callers caller).starts
  pastCheck : ∀ volume, phase.pastCheck = some volume →
    (state.callers caller).pastCheck = some volume ∨ state'.check.busy = false
  pastRepair : ∀ volume, phase.pastRepair = some volume →
    (state.callers caller).pastRepair = some volume ∨ state'.repair.busy = false

section

variable (hguarded : Guarded state)
include hguarded

section

variable (hmove : Move state state' caller phase)
include hmove

theorem Guarded.check_of_move
    {other : Nat} (hpast : (state.callers other).pastCheck = some volume) :
    ¬ (state'.check.busy ∧ state'.check.volume = volume) := by
  rintro ⟨hbusy, rfl⟩
  rcases hmove.check hbusy with ⟨hold, hsame⟩ | hstart
  · exact hguarded.check other _ hpast ⟨hold, hsame.symm⟩
  · exact hguarded.apart other caller _ (Phase.formats_of_pastCheck hpast) hstart

theorem Guarded.repair_of_move
    {other : Nat} (hpast : (state.callers other).pastRepair = some volume) :
    ¬ (state'.repair.busy ∧ volume ∈ state'.repair.volumes) := by
  rintro ⟨hbusy, hmem⟩
  rcases hmove.repair volume hbusy hmem with hold | hstart
  · exact hguarded.repair other volume hpast hold
  · exact hguarded.apart other caller volume (Phase.formats_of_pastRepair hpast) hstart

theorem Guarded.transfer_of_move
    {other : Nat} (hformats : (state.callers other).formats = some volume) :
    ¬ (state'.transfer.busy ∧ volume ∈ state'.transfer.volumes) := by
  rintro ⟨hbusy, hmem⟩
  rcases hmove.transfer volume hbusy hmem with hold | hstart
  · exact hguarded.transfer other volume hformats hold
  · exact hguarded.apart other caller volume hformats hstart

theorem Guarded.of_move : Guarded state' := by
  have hlookup (other : Nat) :
      state'.callers other = if other = caller then phase else state.callers other := by
    rw [hmove.callers, Function.update_apply]
  refine ⟨?_, ?_, ?_, ?_, ?_, ?_⟩
  · intro first second volume volume' hfirst hsecond
    rw [hlookup] at hfirst hsecond
    split_ifs at hfirst hsecond with hone htwo htwo
    · exact hone.trans htwo.symm
    · rcases hmove.formats volume hfirst with hold | ⟨-, hnone⟩
      · exact hone.trans (hguarded.sole caller second volume volume' hold hsecond)
      · simp [(hnone second).1] at hsecond
    · rcases hmove.formats volume' hsecond with hold | ⟨-, hnone⟩
      · exact (hguarded.sole first caller volume volume' hfirst hold).trans htwo.symm
      · simp [(hnone first).1] at hfirst
    · exact hguarded.sole first second volume volume' hfirst hsecond
  · rw [hmove.flag]
    constructor
    · rintro (⟨volume, hphase⟩ | ⟨other, hother, volume, hphase⟩)
      · exact ⟨caller, volume, by rw [hlookup, if_pos rfl, hphase]⟩
      · exact ⟨other, volume, by rw [hlookup, if_neg hother, hphase]⟩
    · rintro ⟨other, volume, hphase⟩
      rw [hlookup] at hphase
      split_ifs at hphase with hother
      · exact .inl ⟨volume, hphase⟩
      · exact .inr ⟨other, hother, volume, hphase⟩
  · intro first second volume hfirst hsecond
    rw [hlookup] at hfirst hsecond
    split_ifs at hfirst hsecond
    · cases phase <;> simp [Phase.formats, Phase.starts] at hfirst hsecond
    · rcases hmove.formats volume hfirst with hold | ⟨-, hnone⟩
      · exact hguarded.apart caller second volume hold hsecond
      · exact (hnone second).2 hsecond
    · rcases hmove.starts volume hsecond with hold | hnone
      · exact hguarded.apart first caller volume hfirst hold
      · exact hnone first hfirst
    · exact hguarded.apart first second volume hfirst hsecond
  · intro other volume hpast
    rw [hlookup] at hpast
    split_ifs at hpast
    · rcases hmove.pastCheck volume hpast with hold | hfree
      · exact hguarded.check_of_move hmove hold
      · simp [hfree]
    · exact hguarded.check_of_move hmove hpast
  · intro other volume hpast
    rw [hlookup] at hpast
    split_ifs at hpast
    · rcases hmove.pastRepair volume hpast with hold | hfree
      · exact hguarded.repair_of_move hmove hold
      · simp [hfree]
    · exact hguarded.repair_of_move hmove hpast
  · intro other volume hformats
    rw [hlookup] at hformats
    split_ifs at hformats
    · rcases hmove.formats volume hformats with hold | ⟨hfree, hnone⟩
      · exact hguarded.transfer_of_move hmove hold
      · rintro ⟨hbusy, hmem⟩
        rcases hmove.transfer volume hbusy hmem with hold | hstart
        · exact hfree hold
        · exact (hnone caller).2 hstart
    · exact hguarded.transfer_of_move hmove hformats

end

/-! ## Every step -/

section

variable (hbefore : ∀ volume, state.callers caller ≠ .formatting volume)
include hbefore

theorem Guarded.flag_of_quiet
    (hafter : ∀ volume, phase ≠ .formatting volume) :
    state.formatting ↔ (∃ volume, phase = .formatting volume) ∨
      ∃ other, other ≠ caller ∧ ∃ volume, state.callers other = .formatting volume := by
  rw [hguarded.flag]
  constructor
  · rintro ⟨other, volume, hphase⟩
    refine .inr ⟨other, ?_, volume, hphase⟩
    rintro rfl
    exact hbefore volume hphase
  · rintro (⟨volume, hphase⟩ | ⟨other, -, volume, hphase⟩)
    · exact absurd hphase (hafter volume)
    · exact ⟨other, volume, hphase⟩

theorem Guarded.read
    (hafter : ∀ volume, phase ≠ .formatting volume)
    (hformats : ∀ volume, phase.formats = some volume → (state.callers caller).formats = some volume ∨
      ¬ (state.transfer.busy ∧ volume ∈ state.transfer.volumes) ∧
        ∀ other, (state.callers other).formats = none ∧ volume ∉ (state.callers other).starts)
    (hstarts : ∀ volume ∈ phase.starts, volume ∈ (state.callers caller).starts ∨
      ∀ other, (state.callers other).formats ≠ some volume)
    (hcheck : ∀ volume, phase.pastCheck = some volume →
      (state.callers caller).pastCheck = some volume ∨ state.check.busy = false)
    (hrepair : ∀ volume, phase.pastRepair = some volume →
      (state.callers caller).pastRepair = some volume ∨ state.repair.busy = false) :
    Guarded (state.setPhase caller phase) :=
  hguarded.of_move {
    callers := rfl
    flag := hguarded.flag_of_quiet hbefore hafter
    formats := hformats
    starts := hstarts
    check := fun hbusy ↦ .inl ⟨hbusy, rfl⟩
    repair := fun _ hbusy hmem ↦ .inl ⟨hbusy, hmem⟩
    transfer := fun _ hbusy hmem ↦ .inl ⟨hbusy, hmem⟩
    pastCheck := hcheck
    pastRepair := hrepair }

theorem Guarded.leave :
    Guarded (state.setPhase caller .done) :=
  hguarded.read hbefore (by simp) (by simp [Phase.formats]) (by simp [Phase.starts])
    (by simp [Phase.pastCheck]) (by simp [Phase.pastRepair])

theorem Guarded.mark {phase : Phase}
    (hphase : phase.formats = none ∧ phase.starts = []) {check : CheckReport} {checkTask : Bool}
    {repair transfer : Job}
    (hcheck : check.busy → state.check.busy ∧ check.volume = state.check.volume ∨
      check.volume ∈ (state.callers caller).starts)
    (hrepair : ∀ volume, repair.busy → volume ∈ repair.volumes →
      state.repair.busy ∧ volume ∈ state.repair.volumes ∨ volume ∈ (state.callers caller).starts)
    (htransfer : ∀ volume, transfer.busy → volume ∈ transfer.volumes →
      state.transfer.busy ∧ volume ∈ state.transfer.volumes ∨ volume ∈ (state.callers caller).starts) :
    Guarded ({ state with check, checkTask, repair, transfer }.setPhase caller phase) := by
  obtain ⟨hnone, hnil⟩ := hphase
  have hnoCheck : phase.pastCheck = none := by cases phase <;> simp_all [Phase.formats, Phase.pastCheck]
  have hnoRepair : phase.pastRepair = none := by cases phase <;> simp_all [Phase.formats, Phase.pastRepair]
  have hafter (volume : Bytes) : phase ≠ .formatting volume := by
    rintro rfl
    simp [Phase.formats] at hnone
  exact hguarded.of_move {
    callers := rfl
    flag := hguarded.flag_of_quiet hbefore hafter
    formats := by simp [hnone]
    starts := by simp [hnil]
    check := hcheck
    repair := hrepair
    transfer := htransfer
    pastCheck := by simp [hnoCheck]
    pastRepair := by simp [hnoRepair] }

end

theorem Guarded.unmark {check : CheckReport} {checkTask : Bool}
    {repair transfer : Job} (hcheck : check.busy → state.check.busy ∧ check.volume = state.check.volume)
    (hrepair : repair.busy → state.repair.busy ∧ repair.volumes = state.repair.volumes)
    (htransfer : transfer.busy → state.transfer.busy ∧ transfer.volumes = state.transfer.volumes) :
    Guarded { state with check, checkTask, repair, transfer } where
  sole := hguarded.sole
  flag := hguarded.flag
  apart := hguarded.apart
  check other volume hpast := by
    rintro ⟨hbusy, hvolume⟩
    obtain ⟨hold, hsame⟩ := hcheck hbusy
    exact hguarded.check other volume hpast ⟨hold, hsame ▸ hvolume⟩
  repair other volume hpast := by
    rintro ⟨hbusy, hmem⟩
    obtain ⟨hold, hsame⟩ := hrepair hbusy
    exact hguarded.repair other volume hpast ⟨hold, hsame ▸ hmem⟩
  transfer other volume hformats := by
    rintro ⟨hbusy, hmem⟩
    obtain ⟨hold, hsame⟩ := htransfer hbusy
    exact hguarded.transfer other volume hformats ⟨hold, hsame ▸ hmem⟩

theorem Guarded.begin {operation : Operation}
    (hwaiting : state.callers caller = .waiting) (hapart : Apart state (.begin caller operation)) :
    Guarded (state.setPhase caller (if state.formatting then .done else operation.first)) := by
  have hbefore : ∀ volume, state.callers caller ≠ .formatting volume := by simp [hwaiting]
  cases hflag : state.formatting with
  | true => exact hguarded.leave hbefore
  | false =>
    simp only [Bool.false_eq_true, ↓reduceIte]
    cases operation with
    | format volume =>
      refine hguarded.read hbefore (by simp [Operation.first]) ?_ (by simp [Operation.first, Phase.starts])
        (by simp [Operation.first, Phase.pastCheck]) (by simp [Operation.first, Phase.pastRepair])
      intro volume' hvolume
      obtain rfl : volume = volume' := by simpa [Operation.first, Phase.formats] using hvolume
      exact .inr (hapart hflag)
    | check volume | repair volume | transfer volume destination =>
      exact hguarded.read hbefore (by simp [Operation.first]) (by simp [Operation.first, Phase.formats])
        (fun used hused ↦ .inr (hapart hflag used hused)) (by simp [Operation.first, Phase.pastCheck])
        (by simp [Operation.first, Phase.pastRepair])

theorem Guarded.setFlag (hphase : state.callers caller = .formatRepair volume) :
    Guarded ({ state with formatting := true }.setPhase caller (.formatting volume)) :=
  hguarded.of_move {
    callers := rfl
    flag := by simp [State.setPhase]
    formats := fun volume' hvolume ↦ .inl (by simpa [hphase, Phase.formats] using hvolume)
    starts := by simp [Phase.starts]
    check := fun hbusy ↦ .inl ⟨hbusy, rfl⟩
    repair := fun _ hbusy hmem ↦ .inl ⟨hbusy, hmem⟩
    transfer := fun _ hbusy hmem ↦ .inl ⟨hbusy, hmem⟩
    pastCheck := fun volume' hvolume ↦ .inl (by simpa [hphase, Phase.pastCheck] using hvolume)
    pastRepair := fun volume' hvolume ↦ .inl (by simpa [hphase, Phase.pastRepair] using hvolume) }

theorem Guarded.clearFlag (hphase : state.callers caller = .formatting volume) :
    Guarded ({ state with formatting := false }.setPhase caller .done) :=
  hguarded.of_move {
    callers := rfl
    flag := by
      simp only [State.setPhase, Bool.false_eq_true, reduceCtorEq, exists_false, false_or, false_iff,
        not_exists, not_and]
      intro other hother volume' hformatting
      exact hother (hguarded.sole other caller volume' volume (by simp [hformatting, Phase.formats])
        (by simp [hphase, Phase.formats]))
    formats := by simp [Phase.formats]
    starts := by simp [Phase.starts]
    check := fun hbusy ↦ .inl ⟨hbusy, rfl⟩
    repair := fun _ hbusy hmem ↦ .inl ⟨hbusy, hmem⟩
    transfer := fun _ hbusy hmem ↦ .inl ⟨hbusy, hmem⟩
    pastCheck := by simp [Phase.pastCheck]
    pastRepair := by simp [Phase.pastRepair] }

theorem Guarded.next (hstep : step state (.next caller) = some state') : Guarded state' := by
  unfold step at hstep
  cases hphase : state.callers caller with
  | formatFlag volume =>
    simp only [hphase, Option.some.injEq] at hstep
    subst hstep
    have hbefore : ∀ volume, state.callers caller ≠ .formatting volume := by simp [hphase]
    cases hbusy : state.check.busy with
    | true => exact hguarded.leave hbefore
    | false =>
      exact hguarded.read hbefore (by simp) (by simp [hphase, Phase.formats]) (by simp [Phase.starts])
        (fun _ _ ↦ .inr hbusy) (by simp [Phase.pastRepair])
  | formatCheck volume =>
    simp only [hphase, Option.some.injEq] at hstep
    subst hstep
    have hbefore : ∀ volume, state.callers caller ≠ .formatting volume := by simp [hphase]
    cases hbusy : state.repair.busy with
    | true => exact hguarded.leave hbefore
    | false =>
      exact hguarded.read hbefore (by simp) (by simp [hphase, Phase.formats]) (by simp [Phase.starts])
        (by simp [hphase, Phase.pastCheck]) (fun _ _ ↦ .inr hbusy)
  | formatRepair volume =>
    simp only [hphase, Option.some.injEq] at hstep
    subst hstep
    exact hguarded.setFlag hphase
  | checkResolved volume | repairResolved volume | transferResolved volume destination =>
    simp only [hphase, Option.some.injEq] at hstep
    subst hstep
    have hbefore : ∀ volume, state.callers caller ≠ .formatting volume := by simp [hphase]
    cases hflag : state.formatting with
    | true => exact hguarded.leave hbefore
    | false =>
      exact hguarded.read hbefore (by simp) (by simp [Phase.formats]) (by simp [hphase, Phase.starts])
        (by simp [Phase.pastCheck]) (by simp [Phase.pastRepair])
  | checkTested volume =>
    have hbefore : ∀ volume, state.callers caller ≠ .formatting volume := by simp [hphase]
    simp only [hphase] at hstep
    split_ifs at hstep
    all_goals
      cases hstep
    · exact hguarded.leave hbefore
    · exact hguarded.mark hbefore ⟨rfl, rfl⟩ (fun _ ↦ .inr (by simp [hphase, Phase.starts]))
        (fun _ hbusy hmem ↦ .inl ⟨hbusy, hmem⟩) (fun _ hbusy hmem ↦ .inl ⟨hbusy, hmem⟩)
  | repairTested volume =>
    have hbefore : ∀ volume, state.callers caller ≠ .formatting volume := by simp [hphase]
    simp only [hphase] at hstep
    split_ifs at hstep
    all_goals
      cases hstep
    · exact hguarded.leave hbefore
    · exact hguarded.read hbefore (by simp) (by simp [Phase.formats]) (by simp [hphase, Phase.starts])
        (by simp [Phase.pastCheck]) (by simp [Phase.pastRepair])
  | repairChecked volume =>
    have hbefore : ∀ volume, state.callers caller ≠ .formatting volume := by simp [hphase]
    simp only [hphase] at hstep
    split_ifs at hstep
    all_goals
      cases hstep
    · exact hguarded.leave hbefore
    · exact hguarded.mark hbefore ⟨rfl, rfl⟩ (fun hbusy ↦ .inl ⟨hbusy, rfl⟩)
        (fun _ _ hmem ↦ .inr (by simpa [hphase, Phase.starts] using hmem))
        (fun _ hbusy hmem ↦ .inl ⟨hbusy, hmem⟩)
  | transferTested source destination =>
    have hbefore : ∀ volume, state.callers caller ≠ .formatting volume := by simp [hphase]
    simp only [hphase] at hstep
    split_ifs at hstep
    all_goals
      cases hstep
    · exact hguarded.leave hbefore
    · exact hguarded.mark hbefore ⟨rfl, rfl⟩ (fun hbusy ↦ .inl ⟨hbusy, rfl⟩)
        (fun _ hbusy hmem ↦ .inl ⟨hbusy, hmem⟩)
        (fun _ _ hmem ↦ .inr (by simpa [hphase, Phase.starts] using hmem))
  | _ => simp [hphase] at hstep

theorem Guarded.create {fails : Bool}
    (hstep : step state (.create caller fails) = some state') : Guarded state' := by
  unfold step at hstep
  cases hphase : state.callers caller with
  | checkClaimed | repairClaimed | transferClaimed =>
    have hbefore : ∀ volume, state.callers caller ≠ .formatting volume := by simp [hphase]
    simp only [hphase] at hstep
    split_ifs at hstep
    all_goals
      cases hstep
      refine hguarded.mark hbefore ⟨rfl, rfl⟩ ?_ ?_ ?_
      all_goals simp +contextual
  | _ => simp [hphase] at hstep

end

theorem guarded_step {event : Event} (hapart : Apart state event) (hguarded : Guarded state)
    (hstep : Step state event state') : Guarded state' := by
  unfold Step at hstep
  cases event with
  | begin caller operation =>
    unfold step at hstep
    cases hphase : state.callers caller with
    | waiting =>
      simp only [hphase, Option.some.injEq] at hstep
      subst hstep
      exact hguarded.begin hphase hapart
    | _ => simp [hphase] at hstep
  | next caller => exact hguarded.next hstep
  | giveUp caller =>
    unfold step at hstep
    cases hphase : state.callers caller with
    | formatting | checkClaimed | repairClaimed | transferClaimed => simp [hphase] at hstep
    | _ =>
      simp only [hphase, Option.some.injEq] at hstep
      subst hstep
      exact hguarded.leave (by simp [hphase])
  | create caller fails => exact hguarded.create hstep
  | formatEnds caller =>
    unfold step at hstep
    cases hphase : state.callers caller with
    | formatting volume =>
      simp only [hphase, Option.some.injEq] at hstep
      subst hstep
      exact hguarded.clearFlag hphase
    | _ => simp [hphase] at hstep
  | checkEnds badEntries errors =>
    simp only [step] at hstep
    split_ifs at hstep
    cases hstep
    exact hguarded.unmark (by simp) (by simp) (by simp)
  | repairEnds =>
    simp only [step] at hstep
    split_ifs at hstep
    cases hstep
    exact hguarded.unmark (by simp) (by simp) (by simp)
  | transferEnds =>
    simp only [step] at hstep
    split_ifs at hstep
    cases hstep
    exact hguarded.unmark (by simp) (by simp) (by simp)
  | transferLeaves =>
    simp only [step] at hstep
    split_ifs at hstep
    cases hstep
    exact hguarded.unmark (by simp) (by simp) (by simp)

theorem guarded_start : Guarded {} where
  sole first second volume _ hfirst := by simp [Phase.formats] at hfirst
  flag := by simp
  apart first second volume hfirst := by simp [Phase.formats] at hfirst
  check caller volume hpast := by simp [Phase.pastCheck] at hpast
  repair caller volume hpast := by simp [Phase.pastRepair] at hpast
  transfer caller volume hformats := by simp [Phase.formats] at hformats

theorem Guarded.exclusive (hguarded : Guarded state) : Exclusive state := by
  intro caller volume hphase
  have hcheck := hguarded.check caller volume (by simp [hphase, Phase.pastCheck])
  have hrepair := hguarded.repair caller volume (by simp [hphase, Phase.pastRepair])
  have htransfer := hguarded.transfer caller volume (by simp [hphase, Phase.formats])
  exact ⟨fun hchecks ↦ hcheck ⟨hchecks.1, hchecks.2.2⟩, fun huses ↦ hrepair ⟨huses.1, huses.2.2⟩,
    fun huses ↦ htransfer ⟨huses.1, huses.2.2⟩⟩

/-- A format has its volume to itself, as long as no start overlaps the start of a format of the same
volume, no two formats overlap in their starts, and no format begins while a transfer uses the volume. -/
theorem format_is_exclusive {events : List Event} {state : State}
    (hrun : Run (fun state event state' ↦ Apart state event ∧ Step state event state') {} events state) :
    Exclusive state := by
  have hkeep (before : State) (event : Event) (after : State) (hguarded : Guarded before)
      (hstep : Apart before event ∧ Step before event after) : Guarded after :=
    guarded_step hstep.1 hguarded hstep.2
  exact (hrun.preserves hkeep guarded_start).exclusive

def internal : Bytes := ascii "flash"

/-- A format on its own asks three times and then owns the volume. -/
theorem lone_format_is_exclusive : ∃ state : State,
    state.callers 0 = .formatting internal ∧ Exclusive state := by
  have hreplay : ((steps step {} [.begin 0 (.format internal), .next 0, .next 0, .next 0]).any fun state ↦
      state.callers 0 = .formatting internal) = true := by
    decide +kernel
  simp only [Option.any_eq_true, decide_eq_true_eq] at hreplay
  obtain ⟨state, hsteps, hphase⟩ := hreplay
  obtain ⟨begun, hbegin, hrest⟩ := (run_of_steps hsteps).uncons
  have hapart : Apart {} (.begin 0 (.format internal)) :=
    fun _ ↦ ⟨fun hbusy ↦ Bool.noConfusion hbusy.1, fun _ ↦ ⟨rfl, List.not_mem_nil⟩⟩
  have hnext : ∀ event ∈ [Event.next 0, .next 0, .next 0], ∀ middle, Apart middle event := by
    intro event hevent middle
    simp only [List.mem_cons, List.not_mem_nil, or_false, or_self] at hevent
    subst hevent
    trivial
  exact ⟨state, hphase, format_is_exclusive (.cons ⟨hapart, hbegin⟩ (hrest.guarded hnext))⟩

/-- A transfer within a volume starts, and then a format of it. -/
def sampleOverlap : List Event :=
  [.begin 0 (.transfer internal internal), .next 0, .next 0, .create 0 false,
    .begin 1 (.format internal), .next 1, .next 1, .next 1]

theorem format_meets_transfer : ¬ ∀ (events : List Event) (state : State),
    Run Step {} events state → Exclusive state := by
  intro hclaim
  have hreplay : ((steps step {} sampleOverlap).any fun state ↦
      state.callers 1 = .formatting internal ∧ state.transfer.busy ∧ state.transfer.task ∧
        internal ∈ state.transfer.volumes) = true := by
    decide +kernel
  simp only [Option.any_eq_true, decide_eq_true_eq] at hreplay
  obtain ⟨state, hsteps, hphase, huses⟩ := hreplay
  exact (hclaim sampleOverlap state (run_of_steps hsteps) 1 internal hphase).2.2 huses

end FormatExclusion

end DhcpServer.Files
