import DhcpServer.Library.Bytes
import Mathlib.Data.List.FinRange

/-!
# The job registry

The slots of `JobRegistry` and its calls, each of them one section under the mutex. A registry
carries the proof that no operation has two records, so that it can be read as a map from ids:
`recordOf` looks an id up, and every call is described by what it does to this map.
-/

namespace DhcpServer.Core.JobRegistry

open Library List Option

/-! ## Data -/

inductive JobState
  | running
  | paused
  | done
  | failed
  | cancelled
deriving DecidableEq

inductive JobUnit
  | none
  | bytes
  | records
deriving DecidableEq

structure JobInfo where
  id : Bytes := []
  titleKey : Bytes := []
  arg : Bytes := []
  detail : Bytes := []
  state : JobState := .running
  done : UInt32 := 0
  total : UInt32 := 0
  unit : JobUnit := .none
  cancelRequested : Bool := false
  repeatSec : UInt32 := 0
  pauseSec : UInt32 := 0
deriving DecidableEq

structure Record where
  job : JobInfo
  started : Nat
  finished : Nat := 0

def kMaxJobs : Nat := 8

structure Registry where
  slots : Fin kMaxJobs → Option Record
  /-- no operation has two records -/
  distinct : ∀ slot other record same, slots slot = some record → slots other = some same →
    record.job.id = same.job.id → slot = other

def Registry.empty : Registry := ⟨fun _ ↦ none, by simp⟩

namespace Registry

variable (registry : Registry)

def find (id : Bytes) : Option (Fin kMaxJobs) :=
  (List.finRange kMaxJobs).find? fun slot ↦
    (registry.slots slot).any fun record ↦ record.job.id == id

def recordOf (id : Bytes) : Option Record := (registry.find id).bind registry.slots

variable {registry} {id other : Bytes} {slot : Fin kMaxJobs} {record : Record}

theorem find_eq_some_iff : registry.find id = some slot ↔ ∃ record, registry.slots slot = some record ∧
      record.job.id = id := by
  constructor
  · intro hfind
    simpa only [Option.any_eq_true, beq_iff_eq] using find?_some hfind
  · rintro ⟨record, hrecord, hid⟩
    cases hfind : registry.find id with
    | none =>
      have hnone := find?_eq_none.mp hfind slot (mem_finRange slot)
      simp [hrecord, hid] at hnone
    | some found =>
      have hfound := find?_some hfind
      simp only [Option.any_eq_true, beq_iff_eq] at hfound
      obtain ⟨same, hsame, hsameId⟩ := hfound
      exact congrArg some (registry.distinct found slot same record hsame hrecord
        (hsameId.trans hid.symm))

theorem find_eq_none_iff : registry.find id = none ↔ ∀ slot record, registry.slots slot = some record →
      record.job.id ≠ id := by
  rw [eq_none_iff_forall_ne_some]
  exact forall_congr' fun slot ↦ by simp [find_eq_some_iff]

theorem recordOf_eq_some_iff : registry.recordOf id = some record ↔
      record.job.id = id ∧ ∃ slot, registry.slots slot = some record := by
  rw [recordOf, bind_eq_some_iff]
  constructor
  · rintro ⟨slot, hfind, hrecord⟩
    obtain ⟨same, hsame, hid⟩ := find_eq_some_iff.mp hfind
    obtain rfl := mem_unique hsame hrecord
    exact ⟨hid, slot, hrecord⟩
  · rintro ⟨hid, slot, hrecord⟩
    exact ⟨slot, find_eq_some_iff.mpr ⟨record, hrecord, hid⟩, hrecord⟩

theorem recordOf_empty (id : Bytes) : empty.recordOf id = none := by
  rw [eq_none_iff_forall_ne_some]
  intro record hrecord
  obtain ⟨-, slot, hslot⟩ := recordOf_eq_some_iff.mp hrecord
  cases hslot

theorem recordOf_congr {registry' : Registry}
    (hsame : ∀ record, record.job.id = id →
      ((∃ slot, registry'.slots slot = some record) ↔ ∃ slot, registry.slots slot = some record)) :
    registry'.recordOf id = registry.recordOf id := by
  apply Option.ext
  intro record
  rw [recordOf_eq_some_iff, recordOf_eq_some_iff]
  exact and_congr_right (hsame record)

def set (registry : Registry) (slot : Fin kMaxJobs) (content : Option Record)
    (hcontent : ∀ record ∈ content, ∀ other same, registry.slots other = some same →
      same.job.id = record.job.id → other = slot) : Registry where
  slots := Function.update registry.slots slot content
  distinct := by
    intro left right record same hleft hright hid
    by_cases hl : left = slot
    · by_cases hr : right = slot
      · exact hl.trans hr.symm
      · rw [hl, Function.update_self] at hleft
        rw [Function.update_of_ne hr] at hright
        exact hl.trans (hcontent record hleft right same hright hid.symm).symm
    · rw [Function.update_of_ne hl] at hleft
      by_cases hr : right = slot
      · rw [hr, Function.update_self] at hright
        exact (hcontent same hright left record hleft hid).trans hr.symm
      · rw [Function.update_of_ne hr] at hright
        exact registry.distinct left right record same hleft hright hid

section Set

variable {changed : Registry} {content : Option Record}

theorem recordOf_set_of_ne (hset : changed.slots = Function.update registry.slots slot content)
    (hold : ∀ record, registry.slots slot = some record → record.job.id ≠ id)
    (hnew : ∀ record ∈ content, record.job.id ≠ id) :
    changed.recordOf id = registry.recordOf id := by
  apply recordOf_congr
  intro record hid
  apply exists_congr
  intro place
  by_cases hplace : place = slot
  · rw [hset, hplace, Function.update_self]
    exact ⟨fun h ↦ absurd hid (hnew record h), fun h ↦ absurd hid (hold record h)⟩
  · rw [hset, Function.update_of_ne hplace]

theorem recordOf_set_some {slots : Fin kMaxJobs → Option Record}
    (hset : changed.slots = Function.update slots slot (some record)) (hid : record.job.id = id) :
    changed.recordOf id = some record :=
  recordOf_eq_some_iff.mpr ⟨hid, slot, by simp [hset]⟩

theorem recordOf_set_none (hset : changed.slots = Function.update registry.slots slot none)
    (hslot : registry.slots slot = some record) : changed.recordOf record.job.id = none := by
  rw [eq_none_iff_forall_ne_some]
  intro same hsame
  obtain ⟨hid, place, hplace⟩ := recordOf_eq_some_iff.mp hsame
  rw [hset] at hplace
  by_cases hsplit : place = slot
  · simp [hsplit] at hplace
  · rw [Function.update_of_ne hsplit] at hplace
    exact hsplit (registry.distinct place slot same record hplace hslot hid)

end Set

/-- What a call makes of a record: it goes, or keeps its id. -/
structure Change where
  apply : Record → Option Record
  id_eq : ∀ record, ∀ changed ∈ apply record, changed.job.id = record.job.id

def update (registry : Registry) (id : Bytes) (change : Change) : Registry :=
  match hfind : registry.find id with
  | none => registry
  | some slot =>
    registry.set slot ((registry.slots slot).bind change.apply) (by
      intro changed hchanged other same hsame hid
      obtain ⟨record, hrecord, hchanged⟩ := bind_eq_some_iff.mp hchanged
      rw [change.id_eq record changed hchanged] at hid
      exact registry.distinct other slot same record hsame hrecord hid)

section Update

variable {change : Change}

theorem recordOf_update_self :
    (registry.update id change).recordOf id = (registry.recordOf id).bind change.apply := by
  rw [update]
  split
  case h_1 hfind => simp [recordOf, hfind]
  case h_2 slot hfind =>
    obtain ⟨record, hrecord, rfl⟩ := find_eq_some_iff.mp hfind
    have hlookup : registry.recordOf record.job.id = some record :=
      recordOf_eq_some_iff.mpr ⟨rfl, slot, hrecord⟩
    rw [hlookup, bind_some]
    cases hchanged : change.apply record with
    | none => exact recordOf_set_none (by simp [set, hrecord, hchanged]) hrecord
    | some changed =>
      have hcontent : (registry.slots slot).bind change.apply = some changed := by
        rw [hrecord, bind_some, hchanged]
      exact recordOf_set_some (congrArg (Function.update registry.slots slot) hcontent)
        (change.id_eq record changed hchanged)

theorem recordOf_update_of_ne (hother : other ≠ id) :
    (registry.update id change).recordOf other = registry.recordOf other := by
  rw [update]
  split
  case h_1 => rfl
  case h_2 slot hfind =>
    obtain ⟨record, hrecord, rfl⟩ := find_eq_some_iff.mp hfind
    apply recordOf_set_of_ne rfl
    · intro same hsame
      obtain rfl := mem_unique hrecord hsame
      exact hother.symm
    · intro changed hchanged
      obtain ⟨same, hsame, hchanged⟩ := bind_eq_some_iff.mp hchanged
      obtain rfl := mem_unique hrecord hsame
      rw [change.id_eq record changed hchanged]
      exact hother.symm

end Update

/-! ## The calls -/

def free? (registry : Registry) : Option (Fin kMaxJobs) :=
  (List.finRange kMaxJobs).find? fun slot ↦ (registry.slots slot).isNone

/-- One round of the search for the oldest record that is not running. -/
def older (registry : Registry) (best : Option (Fin kMaxJobs) × Nat) (slot : Fin kMaxJobs) :
    Option (Fin kMaxJobs) × Nat :=
  match registry.slots slot with
  | none => best
  | some record =>
    if record.job.state = .running then best
    else if record.started ≤ best.2 then (some slot, record.started)
    else best

def oldest? (registry : Registry) (now : Nat) : Option (Fin kMaxJobs) :=
  ((List.finRange kMaxJobs).foldl registry.older (none, now)).1

def slotFor (registry : Registry) (id : Bytes) (now : Nat) : Option (Fin kMaxJobs) :=
  ((registry.find id).or registry.free?).or (registry.oldest? now)

theorem oldest?_spec {now : Nat} (hslot : registry.oldest? now = some slot) :
    ∃ record, registry.slots slot = some record ∧ record.job.state ≠ .running := by
  have hall : ∀ place ∈ ((List.finRange kMaxJobs).foldl registry.older (none, now)).1,
      ∃ record, registry.slots place = some record ∧ record.job.state ≠ .running := by
    apply foldlRecOn (motive := fun best : Option (Fin kMaxJobs) × Nat ↦ ∀ place ∈ best.1,
      ∃ record, registry.slots place = some record ∧ record.job.state ≠ .running)
    · rintro place ⟨⟩
    intro best hbest slot _ place hplace
    rw [older] at hplace
    split at hplace
    case h_1 => exact hbest place hplace
    case h_2 record hrecord =>
      split_ifs at hplace with hrunning hstarted
      · exact hbest place hplace
      · cases hplace
        exact ⟨record, hrecord, hrunning⟩
      · exact hbest place hplace
  exact hall slot hslot

/-- A slot is taken over from the same operation or, where that has no record, from nobody or from
an operation that is not running. -/
theorem slotFor_spec {now : Nat} (hslot : registry.slotFor id now = some slot) :
    (∃ record, registry.slots slot = some record ∧ record.job.id = id) ∨ registry.find id = none ∧
        ∀ record, registry.slots slot = some record → record.job.state ≠ .running := by
  rw [slotFor, or_eq_some_iff, or_eq_some_iff] at hslot
  rcases hslot with (hfind | ⟨hnone, hfree⟩) | ⟨hnone, holdest⟩
  · exact .inl (find_eq_some_iff.mp hfind)
  · refine .inr ⟨hnone, fun record hrecord ↦ ?_⟩
    have hempty := find?_some hfree
    simp [hrecord] at hempty
  · obtain ⟨old, hold, hstate⟩ := oldest?_spec holdest
    refine .inr ⟨(or_eq_none_iff.mp hnone).1, fun record hrecord ↦ ?_⟩
    obtain rfl := mem_unique hold hrecord
    exact hstate

theorem slotFor_distinct {now : Nat} (hslot : registry.slotFor id now = some slot)
    {place : Fin kMaxJobs} {same : Record} (hsame : registry.slots place = some same)
    (hid : same.job.id = id) : place = slot := by
  rcases slotFor_spec hslot with ⟨record, hrecord, hsameId⟩ | ⟨hnone, -⟩
  · exact registry.distinct place slot same record hsame hrecord (hid.trans hsameId.symm)
  · exact absurd hid (find_eq_none_iff.mp hnone place same hsame)

def begin (registry : Registry) (id titleKey arg : Bytes) (total : UInt32) (unit : JobUnit)
    (repeatSec : UInt32) (now : Nat) : Registry × Bool :=
  if id = [] then (registry, false)
  else
    match hslot : registry.slotFor id now with
    | none => (registry, false)
    | some slot =>
      (registry.set slot
        (some ⟨{ id, titleKey, arg, state := .running, total, unit, repeatSec }, now, 0⟩) (by
        rintro _ ⟨rfl⟩ other same hsame hid
        exact slotFor_distinct hslot hsame hid), true)

def progress (registry : Registry) (id : Bytes) (done total : UInt32) (detail : Bytes) : Registry :=
  registry.update id {
    apply record :=
      some { record with
        job := { record.job with
          state := .running
          done
          pauseSec := 0
          total := if 0 < total then total else record.job.total
          detail := if detail = [] then record.job.detail else detail } }
    id_eq := by simp }

def pause (registry : Registry) (id detail : Bytes) (seconds : UInt32) : Registry :=
  registry.update id {
    apply record :=
      some { record with
        job := { record.job with
          state := .paused
          pauseSec := seconds
          detail := if detail = [] then record.job.detail else detail } }
    id_eq := by simp }

def finish (registry : Registry) (id : Bytes) (state : JobState) (detail : Bytes) (now : Nat) : Registry :=
  registry.update id {
    apply record :=
      if record.job.repeatSec = 0 then none
      else
        some { record with
          job := { record.job with
            state
            pauseSec := 0
            detail := if detail = [] then record.job.detail else detail
            done := if 0 < record.job.total ∧ state = .done then record.job.total
              else record.job.done }
          finished := now }
    id_eq := by
      intro record changed hchanged
      split at hchanged
      · cases hchanged
      · cases hchanged
        rfl }

def Unfinished (job : JobInfo) : Prop := job.state = .running ∨ job.state = .paused

instance (job : JobInfo) : Decidable (Unfinished job) := inferInstanceAs (Decidable (_ ∨ _))

def requestCancel (registry : Registry) (id : Bytes) : Registry × Bool :=
  match registry.recordOf id with
  | none => (registry, false)
  | some record =>
    if Unfinished record.job then
      (registry.update id {
        apply record := some { record with job := { record.job with cancelRequested := true } }
        id_eq := by simp }, true)
    else (registry, false)

def cancelRequested (registry : Registry) (id : Bytes) : Bool :=
  (registry.recordOf id).any fun record ↦ record.job.cancelRequested

def contains (registry : Registry) (id : Bytes) : Bool := (registry.recordOf id).isSome

section Begin

variable {titleKey arg : Bytes} {total repeatSec : UInt32} {unit : JobUnit} {now : Nat}

theorem begin_of_slotFor (hid : id ≠ []) (hslot : registry.slotFor id now = some slot) :
    (registry.begin id titleKey arg total unit repeatSec now).2 ∧
      (registry.begin id titleKey arg total unit repeatSec now).1.recordOf id =
        some ⟨{ id, titleKey, arg, total, unit, repeatSec }, now, 0⟩ := by
  rw [begin, if_neg hid]
  split
  case h_1 hnone => rw [hslot] at hnone; cases hnone
  case h_2 slot hslot =>
    exact ⟨rfl, recordOf_set_some rfl rfl⟩

theorem begin_of_slotFor_none (hslot : registry.slotFor id now = none) :
    registry.begin id titleKey arg total unit repeatSec now = (registry, false) := by
  rw [begin]
  split_ifs
  · rfl
  · split
    case h_1 => rfl
    case h_2 hsome => rw [hslot] at hsome; cases hsome

theorem recordOf_begin_of_ne (hother : other ≠ id)
    (hrunning : ∀ record, registry.recordOf other = some record → record.job.state = .running) :
    (registry.begin id titleKey arg total unit repeatSec now).1.recordOf other =
      registry.recordOf other := by
  rw [begin]
  split_ifs
  · rfl
  · split
    case h_1 => rfl
    case h_2 slot hslot =>
      apply recordOf_set_of_ne rfl
      · intro record hrecord hid
        rcases slotFor_spec hslot with ⟨same, hsame, hsameId⟩ | ⟨-, hidle⟩
        · obtain rfl := mem_unique hrecord hsame
          exact hother (hid.symm.trans hsameId)
        · exact hidle record hrecord (hrunning record (recordOf_eq_some_iff.mpr ⟨hid, slot, hrecord⟩))
      · rintro _ ⟨rfl⟩
        exact hother.symm

theorem recordOf_of_begin (hother : other ≠ id)
    (hrecord : (registry.begin id titleKey arg total unit repeatSec now).1.recordOf other = some record) :
    registry.recordOf other = some record := by
  rw [begin] at hrecord
  split_ifs at hrecord
  · exact hrecord
  · split at hrecord
    case h_1 => exact hrecord
    case h_2 slot hslot =>
      obtain ⟨hid, place, hplace⟩ := recordOf_eq_some_iff.mp hrecord
      by_cases hsame : place = slot
      · simp only [set, hsame, Function.update_self, Option.some.injEq] at hplace
        rw [← hplace] at hid
        exact absurd hid.symm hother
      · simp only [set, Function.update_of_ne hsame] at hplace
        exact recordOf_eq_some_iff.mpr ⟨hid, place, hplace⟩

end Begin

theorem recordOf_finish_self {state : JobState} {detail : Bytes} {now : Nat}
    (hoff : ∀ record, registry.recordOf id = some record → record.job.repeatSec = 0) :
    (registry.finish id state detail now).recordOf id = none := by
  rw [finish, recordOf_update_self]
  cases hrecord : registry.recordOf id with
  | none => rfl
  | some record => simp [hoff record hrecord]

end Registry

/-! ## Calls of other tasks -/

inductive Call
  | begin (id titleKey arg : Bytes) (total : UInt32) (unit : JobUnit) (repeatSec : UInt32)
      (now : Nat)
  | progress (id : Bytes) (done total : UInt32) (detail : Bytes)
  | pause (id detail : Bytes) (seconds : UInt32)
  | finish (id : Bytes) (state : JobState) (detail : Bytes) (now : Nat)
  | requestCancel (id : Bytes)
deriving DecidableEq

def Call.apply (registry : Registry) : Call → Registry
  | begin id titleKey arg total unit repeatSec now =>
    (registry.begin id titleKey arg total unit repeatSec now).1
  | progress id done total detail => registry.progress id done total detail
  | pause id detail seconds => registry.pause id detail seconds
  | finish id state detail now => registry.finish id state detail now
  | requestCancel id => (registry.requestCancel id).1

/-- The call does not begin, pause or end the operation. Anybody may report progress or ask for a
stop. -/
def Call.Foreign (id : Bytes) : Call → Prop
  | begin other _ _ _ _ _ _ | pause other _ _ | finish other _ _ _ => other ≠ id
  | progress _ _ _ _ | requestCancel _ => True

def Call.id : Call → Bytes
  | begin id _ _ _ _ _ _ | progress id _ _ _ | pause id _ _ | finish id _ _ _ | requestCancel id => id

instance (id : Bytes) : (call : Call) → Decidable (call.Foreign id)
  | .begin other _ _ _ _ _ _ | .pause other _ _ | .finish other _ _ _ =>
    inferInstanceAs (Decidable (other ≠ id))
  | .progress _ _ _ _ | .requestCancel _ => inferInstanceAs (Decidable True)

def after (registry : Registry) (calls : List Call) : Registry := calls.foldl Call.apply registry

/-- One of the calls asks the operation to stop and is told that it will. -/
def granted (id : Bytes) : Registry → List Call → Bool
  | _, [] => false
  | registry, call :: calls =>
    (call == .requestCancel id && (registry.requestCancel id).2) ||
      granted id (call.apply registry) calls

def Running (registry : Registry) (id : Bytes) : Prop :=
  ∃ record, registry.recordOf id = some record ∧ record.job.state = .running ∧ record.job.repeatSec = 0

namespace Registry

variable {registry : Registry} {id : Bytes}

theorem requestCancel_of_none (hnone : registry.recordOf id = none) :
    registry.requestCancel id = (registry, false) := by
  rw [requestCancel, hnone]

theorem requestCancel_of_unfinished {record : Record} (hrecord : registry.recordOf id = some record)
    (hunfinished : Unfinished record.job) : (registry.requestCancel id).2 := by
  rw [requestCancel, hrecord]
  simp [hunfinished]

theorem requestCancel_of_running (hrunning : Running registry id) :
    (registry.requestCancel id).2 := by
  obtain ⟨record, hrecord, hstate, -⟩ := hrunning
  exact requestCancel_of_unfinished hrecord (.inl hstate)

theorem recordOf_requestCancel_self {record : Record} (hrecord : registry.recordOf id = some record)
    (hunfinished : Unfinished record.job) :
    (registry.requestCancel id).1.recordOf id =
      some { record with job := { record.job with cancelRequested := true } } := by
  rw [requestCancel, hrecord]
  simp only [hunfinished, if_true]
  rw [recordOf_update_self, hrecord, bind_some]

theorem recordOf_requestCancel_of_ne {other : Bytes} (hother : other ≠ id) :
    (registry.requestCancel id).1.recordOf other = registry.recordOf other := by
  rw [requestCancel]
  split
  · rfl
  · split_ifs
    · exact recordOf_update_of_ne hother
    · rfl

end Registry

open Registry

section Foreign

variable {registry : Registry} {id : Bytes}

variable {call : Call}

theorem recordOf_apply_none (hforeign : call.Foreign id)
    (hnone : registry.recordOf id = none) : (call.apply registry).recordOf id = none := by
  have hupdate (other : Bytes) (change : Change) :
      (registry.update other change).recordOf id = none := by
    by_cases hother : id = other
    · rw [← hother, recordOf_update_self, hnone, bind_none]
    · rw [recordOf_update_of_ne hother, hnone]
  cases call with
  | begin other =>
    rw [Call.apply, recordOf_begin_of_ne (Ne.symm hforeign) (by simp [hnone]), hnone]
  | progress other => exact hupdate other _
  | pause other => exact hupdate other _
  | finish other => exact hupdate other _
  | requestCancel other =>
    by_cases hother : id = other
    · rw [Call.apply, ← hother, requestCancel_of_none hnone, hnone]
    · rw [Call.apply, recordOf_requestCancel_of_ne hother, hnone]

theorem recordOf_apply_of_ne (hid : call.id ≠ id)
    (hrunning : ∀ record, registry.recordOf id = some record → record.job.state = .running) :
    (call.apply registry).recordOf id = registry.recordOf id := by
  cases call with
  | begin other => exact recordOf_begin_of_ne (Ne.symm hid) hrunning
  | progress other | pause other | finish other => exact recordOf_update_of_ne (Ne.symm hid)
  | requestCancel other => exact recordOf_requestCancel_of_ne (Ne.symm hid)

theorem recordOf_of_apply {record : Record} (hid : id ≠ call.id)
    (hrecord : (call.apply registry).recordOf id = some record) : registry.recordOf id = some record := by
  cases call with
  | begin other => exact recordOf_of_begin hid hrecord
  | progress other | pause other | finish other =>
    exact (recordOf_update_of_ne hid).symm.trans hrecord
  | requestCancel other => exact (recordOf_requestCancel_of_ne hid).symm.trans hrecord

theorem running_apply (hforeign : call.Foreign id) (hrunning : Running registry id) :
    Running (call.apply registry) id := by
  obtain ⟨record, hrecord, hstate, honce⟩ := hrunning
  have hsame {changed : Registry} (hchanged : changed.recordOf id = registry.recordOf id) :
      Running changed id := ⟨record, hchanged.trans hrecord, hstate, honce⟩
  have hself (change : Change)
      (hkeeps : ∃ changed, change.apply record = some changed ∧ changed.job.state = .running ∧
        changed.job.repeatSec = 0) :
      Running (registry.update id change) id := by
    obtain ⟨changed, hchanged, hkept⟩ := hkeeps
    exact ⟨changed, by rw [recordOf_update_self, hrecord, bind_some, hchanged], hkept⟩
  cases call with
  | begin other =>
    apply hsame
    apply recordOf_begin_of_ne (Ne.symm hforeign)
    intro same hfound
    obtain rfl := mem_unique hrecord hfound
    exact hstate
  | progress other =>
    by_cases hother : id = other
    · subst hother
      exact hself _ ⟨_, rfl, rfl, honce⟩
    · exact hsame (recordOf_update_of_ne hother)
  | pause other => exact hsame (recordOf_update_of_ne (Ne.symm hforeign))
  | finish other => exact hsame (recordOf_update_of_ne (Ne.symm hforeign))
  | requestCancel other =>
    by_cases hother : id = other
    · subst hother
      rw [Call.apply, requestCancel, hrecord]
      have hunfinished : Unfinished record.job := .inl hstate
      simp only [hunfinished, if_true]
      exact hself _ ⟨_, rfl, hstate, honce⟩
    · exact hsame (recordOf_requestCancel_of_ne hother)

theorem after_none {calls : List Call} (hforeign : ∀ call ∈ calls, call.Foreign id)
    (hnone : registry.recordOf id = none) :
    (after registry calls).recordOf id = none ∧ granted id registry calls = false := by
  induction calls generalizing registry with
  | nil => exact ⟨hnone, rfl⟩
  | cons call calls ih =>
    obtain ⟨hfirst, hrest⟩ := forall_mem_cons.mp hforeign
    obtain ⟨hafter, hgranted⟩ := ih hrest (recordOf_apply_none hfirst hnone)
    refine ⟨hafter, ?_⟩
    simp [granted, hgranted, requestCancel_of_none hnone]

theorem after_running {calls : List Call} (hforeign : ∀ call ∈ calls, call.Foreign id)
    (hrunning : Running registry id) :
    Running (after registry calls) id ∧ (granted id registry calls = true ↔ .requestCancel id ∈ calls) := by
  induction calls generalizing registry with
  | nil => exact ⟨hrunning, by simp [granted]⟩
  | cons call calls ih =>
    obtain ⟨hfirst, hrest⟩ := forall_mem_cons.mp hforeign
    obtain ⟨hafter, hgranted⟩ := ih hrest (running_apply hfirst hrunning)
    refine ⟨hafter, ?_⟩
    rw [granted, requestCancel_of_running hrunning, Bool.and_true, Bool.or_eq_true, beq_iff_eq,
      hgranted, mem_cons]
    exact or_congr_left eq_comm

end Foreign

end DhcpServer.Core.JobRegistry
