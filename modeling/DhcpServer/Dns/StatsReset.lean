import DhcpServer.Dns.StatisticsRecord
import DhcpServer.Library.Run

/-!
# Resetting the statistics

The counters live in memory, in the statistics file, in a part that a save has left beside it, and in
the copy a running save works with. `resetStats` zeroes the first and removes the second. The device
may stop at any step; when it starts again, and when the operator asks for it, the file is read back,
after `recover` has published a part that stands alone.

There is one save at a time, and a reset and a load are never under way together, since one task
serves the requests for both. The removal that belongs to a reset works.
-/

namespace DhcpServer.Dns.StatsReset

open Library Core.AtomicFile DnsStatStore List Option Function

/-! ## A save -/

def kPath : Bytes := ascii "/fat/Statistica.dat"

def tmpPath : Bytes := kPath ++ ascii ".tmp"

/-- Where an attempt of `saveWithRetry` stands. -/
inductive Stage
  /-- only the second attempt begins here -/
  | clearFile
  | clearTmp
  | create
  | append
  | close
  /-- `publish` looks for the part -/
  | look
  | unlink
  | rename
  /-- the part is removed after a write that failed -/
  | cleanUp
  | ended (failed : Bool)

namespace Stage

def call (totals : DnsStatTotals) : Stage → Option Call
  | clearFile | unlink => some (.remove kPath)
  | clearTmp => some (.remove tmpPath)
  | create => some (.create (partPath kPath))
  | append => some (.append (partPath kPath) (encode totals))
  | close => some (.close (partPath kPath))
  | rename => some (.rename (partPath kPath) kPath)
  | cleanUp => some (.remove (partPath kPath))
  | look | ended _ => none

def next : Stage → Stage
  | clearFile => clearTmp
  | clearTmp => create
  | create => append
  | append => close
  | close => look
  | look => unlink
  | unlink => rename
  | rename => ended false
  | cleanUp => ended true
  | ended failed => ended failed

def onFailure : Stage → Stage
  | clearFile => clearTmp
  | clearTmp => create
  | append | close => cleanUp
  | create | look | unlink | rename | cleanUp | ended _ => ended true

def works (storage : Storage) : Stage → Bool
  | look => readable storage (partPath kPath)
  | rename => readable storage (partPath kPath) && !readable storage kPath
  | _ => true

def isEnded : Stage → Bool
  | ended _ => true
  | _ => false

end Stage

/-- A save in flight, with the copy of the counters it took. -/
structure Job where
  totals : DnsStatTotals
  attempt : Nat := 1
  stage : Stage := .create

namespace Job

def apply (job : Job) (storage : Storage) : Storage :=
  (job.stage.call job.totals).elim storage fun call ↦ call.apply storage

def partly (job : Job) (cut : Nat) (storage : Storage) : Storage :=
  (job.stage.call job.totals).elim storage fun call ↦ call.partly cut storage

/-- What follows an attempt: nothing if it held, else the one retry. -/
def conclude (job : Job) (held : Bool) : Option Job :=
  if held || 1 < job.attempt then none
  else some { job with attempt := job.attempt + 1, stage := .clearFile }

end Job

/-! ## The device -/

def DNS_COUNTER_MAX : UInt64 := 0xFFFFFFFF

/-- The counters that `applyStatsTotals` leaves. -/
def applyStatsTotals (totals : DnsStatTotals) : DnsStatTotals :=
  { totals with
    hits := min totals.hits DNS_COUNTER_MAX
    forwards := min totals.forwards DNS_COUNTER_MAX }

/-- The counters after more has been counted; the first two have 32 bits. -/
def counted (memory more : DnsStatTotals) : DnsStatTotals where
  hits := (memory.hits.toUInt32 + more.hits.toUInt32).toUInt64
  forwards := (memory.forwards.toUInt32 + more.forwards.toUInt32).toUInt64
  hitUsSum := memory.hitUsSum + more.hitUsSum
  waitUs := memory.waitUs + more.waitUs
  walkedNodes := memory.walkedNodes + more.walkedNodes
  stores := memory.stores + more.stores
  evictScans := memory.evictScans + more.evictScans
  evictScanUs := memory.evictScanUs + more.evictScanUs
  evictScanNodes := memory.evictScanNodes + more.evictScanNodes

structure State where
  memory : DnsStatTotals := {}
  storage : Storage
  job : Option Job := none
  /-- a reset has zeroed the counters, and these copies of them were taken since -/
  resetting : Option (List DnsStatTotals) := none
  /-- a reset has run, and these copies of the counters were taken since the last one -/
  taken : Option (List DnsStatTotals) := none

def start (storage : Storage) : State := { storage }

inductive Event
  | count (more : DnsStatTotals)
  /-- a save takes its copy of the counters -/
  | take
  /-- the save's next call is carried out -/
  | advance
  /-- the save's next call fails -/
  | fail (cut : Nat)
  /-- the end of an attempt; what it wrote is read back -/
  | conclude (holds : Bool)
  | load
  /-- the counters are zeroed -/
  | zero
  /-- the file is removed, and the reset has run -/
  | remove
  /-- the device stops and starts again -/
  | restart (cut : Nat) (restore : Bool)

/-- `load`, and what is restored is applied. -/
def State.loaded (state : State) : State :=
  let (storage, result) := DnsStatStore.load kPath state.storage {}
  { state with
    storage
    memory := match result with
      | .ok totals => applyStatsTotals totals
      | .error _ => state.memory }

def step (state : State) : Event → Option State
  | .count more => some { state with memory := counted state.memory more }
  | .take =>
    match state.job with
    | some _ => none
    | none => some { state with
        job := some { totals := state.memory }
        resetting := state.resetting.map (state.memory :: ·)
        taken := state.taken.map (state.memory :: ·) }
  | .advance =>
    match state.job with
    | none => none
    | some job =>
      if job.stage.isEnded || !job.stage.works state.storage then none
      else some { state with
        storage := job.apply state.storage
        job := some { job with stage := job.stage.next } }
  | .fail cut =>
    match state.job with
    | none => none
    | some job =>
      if job.stage.isEnded then none
      else some { state with
        storage := job.partly cut state.storage
        job := some { job with stage := job.stage.onFailure } }
  | .conclude holds =>
    match state.job with
    | none => none
    | some job =>
      match job.stage with
      | .ended failed => some { state with job := job.conclude (!failed && holds) }
      | _ => none
  | .load => if state.resetting.isSome then none else some state.loaded
  | .zero =>
    if state.resetting.isSome then none
    else some { state with memory := applyStatsTotals {}, resetting := some [] }
  | .remove =>
    match state.resetting with
    | none => none
    | some list => some { state with
        storage := (Call.remove kPath).apply state.storage
        resetting := none
        taken := some list }
  | .restart cut restore =>
    let state := { state with
      memory := {}
      storage := state.job.elim state.storage fun job ↦ job.partly cut state.storage
      job := none
      resetting := none }
    some (if restore then state.loaded else state)

def Step (state : State) (event : Event) (state' : State) : Prop := step state event = some state'

/-- Whatever a load would restore is a copy of the counters that was taken since the last reset. -/
def Final (state : State) : Prop :=
  ∀ list, state.taken = some list →
    ∀ totals, (DnsStatStore.load kPath state.storage {}).2 = .ok totals → totals ∈ list

/-- A reset begins while no save is in flight and no part stands there that could be read. -/
def Undisturbed (state : State) : Event → Prop
  | .zero => state.job = none ∧ ¬ Accepts (state.storage (partPath kPath)) {}
  | _ => True

instance (file : Option Bytes) (out : DnsStatTotals) : Decidable (Accepts file out) :=
  match hload : loadFile file out with
  | .ok totals => .isTrue ⟨totals, hload⟩
  | .error _ => .isFalse fun ⟨_, haccepts⟩ ↦ by rw [hload] at haccepts; cases haccepts

instance (state : State) (event : Event) : Decidable (Undisturbed state event) := by
  unfold Undisturbed
  cases event <;> infer_instance

/-- Nothing can be read from the file but a copy in the list. -/
def Harmless (list : List DnsStatTotals) (file : Option Bytes) : Prop :=
  ∀ totals, loadFile file {} = .ok totals → totals ∈ list

variable {list : List DnsStatTotals} {totals : DnsStatTotals} {storage : Storage}

theorem harmless_none : Harmless list none := by
  intro totals hload
  cases hload

theorem Harmless.mono {more : List DnsStatTotals} {file : Option Bytes} (hfile : Harmless list file)
    (hmore : list ⊆ more) : Harmless more file :=
  fun totals hload ↦ hmore (hfile totals hload)

theorem harmless_of_not_accepts {file : Option Bytes} (hfile : ¬ Accepts file {}) : Harmless list file :=
  fun totals hload ↦ absurd ⟨totals, hload⟩ hfile

theorem harmless_take (htotals : totals ∈ list) (cut : Nat) :
    Harmless list (some ((encode totals).take cut)) := by
  intro read hload
  obtain ⟨record, rest, hcontent, hrecord, hread⟩ := loadFile_eq_ok_iff.mp hload
  have hwhole : encode totals = record ++ (rest ++ (encode totals).drop cut) := by
    rw [← append_assoc, ← hcontent, take_append_drop]
  have hrest : rest ++ (encode totals).drop cut = [] :=
    hrecord.eq_nil_of_append (hwhole ▸ .inr (isRecord_encode totals))
  rw [hrest, append_nil] at hwhole
  have hdecode : decode record {} = .ok (countersOf record {}) := decode_of_wellFormed hrecord
  rw [← hwhole, decode_encode] at hdecode
  have hsame : countersOf (encode totals) {} = totals := (Except.ok.inj hdecode).symm
  rw [hread, ← hwhole, hsame]
  exact htotals

theorem harmless_nil : Harmless list (some []) := by
  intro totals hload
  obtain ⟨record, rest, hcontent, hrecord, -⟩ := loadFile_eq_ok_iff.mp hload
  have hlength := congrArg List.length hcontent
  rw [length_append, length_nil] at hlength
  rcases hrecord.length with hsize | hsize <;> omega

/-! ## What a call of a save leaves -/

theorem part_ne_path : partPath kPath ≠ kPath := partPath_ne kPath

theorem tmp_ne : tmpPath ≠ kPath ∧ tmpPath ≠ partPath kPath := by decide

def Job.Fresh (job : Job) (storage : Storage) : Prop :=
  job.stage = .append → storage (partPath kPath) = none ∨ storage (partPath kPath) = some []

/-- What a call makes of the two names: each is left alone or removed, the part is emptied or holds a
beginning of the record, the file is what the part was. -/
structure Effect (job : Job) (before after : Storage) : Prop where
  part : after (partPath kPath) = before (partPath kPath) ∨ after (partPath kPath) = none ∨
    after (partPath kPath) = some [] ∨ ∃ cut, after (partPath kPath) = some ((encode job.totals).take cut)
  path : after kPath = before kPath ∨ after kPath = none ∨ after kPath = before (partPath kPath)

theorem Effect.unchanged (job : Job) (storage : Storage) : Effect job storage storage :=
  ⟨.inl rfl, .inl rfl⟩

theorem effect_append {job : Job} (hfresh : job.Fresh storage) (happend : job.stage = .append)
    (cut : Nat) :
    Effect job storage
      ((Call.append (partPath kPath) ((encode job.totals).take cut)).apply storage) where
  part := by
    simp only [Call.apply, update_self]
    rcases hfresh happend with hnone | hempty
    · exact .inr (.inl (by rw [hnone]; rfl))
    · exact .inr (.inr (.inr ⟨cut, by rw [hempty]; rfl⟩))
  path := .inl (update_of_ne part_ne_path.symm _ _)

theorem effect_remove_path (job : Job) (storage : Storage) :
    Effect job storage ((Call.remove kPath).apply storage) where
  part := .inl (update_of_ne part_ne_path _ _)
  path := .inr (.inl (removed_path kPath storage))

theorem effect_remove_part (job : Job) (storage : Storage) :
    Effect job storage ((Call.remove (partPath kPath)).apply storage) where
  part := .inr (.inl (removed_path (partPath kPath) storage))
  path := .inl (update_of_ne part_ne_path.symm _ _)

theorem effect_remove_tmp (job : Job) (storage : Storage) :
    Effect job storage ((Call.remove tmpPath).apply storage) where
  part := .inl (update_of_ne tmp_ne.2.symm _ _)
  path := .inl (update_of_ne tmp_ne.1.symm _ _)

theorem created_part (storage : Storage) :
    (Call.create (partPath kPath)).apply storage (partPath kPath) = some [] := by
  rw [Call.apply, update_self]

theorem effect_create (job : Job) (storage : Storage) :
    Effect job storage ((Call.create (partPath kPath)).apply storage) where
  part := .inr (.inr (.inl (created_part storage)))
  path := .inl (update_of_ne part_ne_path.symm _ _)

theorem effect_rename (job : Job) (storage : Storage) :
    Effect job storage ((Call.rename (partPath kPath) kPath).apply storage) := by
  by_cases hdone : ((storage (partPath kPath)).isSome && (storage kPath).isNone)
  · rw [Call.apply, if_pos hdone]
    refine ⟨.inr (.inl (update_self _ _ _)), .inr (.inr ?_)⟩
    rw [update_of_ne part_ne_path.symm, update_self]
  · rw [Call.apply, if_neg hdone]
    exact .unchanged job storage

theorem effect_apply {job : Job} (hfresh : job.Fresh storage) : Effect job storage (job.apply storage) := by
  cases hstage : job.stage with
  | append =>
    have heffect := effect_append hfresh hstage (encode job.totals).length
    rw [take_length] at heffect
    rw [Job.apply, hstage]
    exact heffect
  | clearFile | unlink =>
    rw [Job.apply, hstage]
    exact effect_remove_path job storage
  | clearTmp =>
    rw [Job.apply, hstage]
    exact effect_remove_tmp job storage
  | create =>
    rw [Job.apply, hstage]
    exact effect_create job storage
  | rename =>
    rw [Job.apply, hstage]
    exact effect_rename job storage
  | cleanUp =>
    rw [Job.apply, hstage]
    exact effect_remove_part job storage
  | close | look | ended _ =>
    rw [Job.apply, hstage]
    exact .unchanged job storage

theorem effect_partly {job : Job} (hfresh : job.Fresh storage) (cut : Nat) :
    Effect job storage (job.partly cut storage) := by
  cases hstage : job.stage with
  | append =>
    rw [Job.partly, hstage]
    exact effect_append hfresh hstage cut
  | clearFile | clearTmp | create | close | look | unlink | rename | cleanUp | ended _ =>
    rw [Job.partly, hstage]
    exact .unchanged job storage

section Effect

variable {job : Job} {before after : Storage} (heffect : Effect job before after)

include heffect

theorem Effect.harmless_part (hpart : Harmless list (before (partPath kPath)))
    (htotals : job.totals ∈ list) : Harmless list (after (partPath kPath)) := by
  rcases heffect.part with hsame | hgone | hempty | ⟨cut, hwritten⟩
  · rwa [hsame]
  · rw [hgone]
    exact harmless_none
  · rw [hempty]
    exact harmless_nil
  · rw [hwritten]
    exact harmless_take htotals cut

theorem Effect.harmless_path (hpath : Harmless list (before kPath))
    (hpart : Harmless list (before (partPath kPath))) : Harmless list (after kPath) := by
  rcases heffect.path with hsame | hgone | hrenamed
  · rwa [hsame]
  · rw [hgone]
    exact harmless_none
  · rwa [hrenamed]

end Effect

theorem fresh_next (job : Job) (storage : Storage) (hstage : job.stage.isEnded = false) :
    Job.Fresh { job with stage := job.stage.next } (job.apply storage) := by
  intro happend
  cases hcreate : job.stage with
  | create =>
    rw [Job.apply, hcreate]
    exact .inr (created_part storage)
  | clearFile | clearTmp | append | close | look | unlink | rename | cleanUp =>
    simp [hcreate, Stage.next] at happend
  | ended failed =>
    rw [hcreate] at hstage
    cases hstage

theorem fresh_onFailure (job : Job) (storage : Storage) :
    Job.Fresh { job with stage := job.stage.onFailure } storage := by
  intro happend
  cases hstage : job.stage <;> simp [hstage, Stage.onFailure] at happend

/-! ## The invariant -/

/-- The copies of the saves in flight are in the list, and the part can be read as nothing else. -/
structure Kept (list : List DnsStatTotals) (state : State) : Prop where
  part : Harmless list (state.storage (partPath kPath))
  job : ∀ job, state.job = some job → job.totals ∈ list

structure Sound (state : State) : Prop where
  kept : ∀ list, state.taken = some list → Kept list state ∧ Harmless list (state.storage kPath)
  begun : ∀ list, state.resetting = some list → Kept list state
  fresh : ∀ job, state.job = some job → job.Fresh state.storage

theorem recover_cases (storage : Storage) : (recover kPath storage = storage) ∨
      (recover kPath storage kPath = storage (partPath kPath) ∧
        recover kPath storage (partPath kPath) = none) := by
  rw [recover]
  split
  · exact .inl rfl
  · rename_i hpath
    split
    · rename_i hpart
      have hdone : ((storage (partPath kPath)).isSome && (storage kPath).isNone) := by
        simpa [readable] using And.intro hpart hpath
      refine .inr ?_
      rw [Call.apply, if_pos hdone]
      exact ⟨by rw [update_of_ne part_ne_path.symm, update_self], update_self _ _ _⟩
    · exact .inl rfl

/-- What a step does to the storage while the copies stay where they are. -/
structure Settles (before after : Storage) : Prop where
  part : ∀ list, Harmless list (before (partPath kPath)) → Harmless list (after (partPath kPath))
  path : ∀ list, Harmless list (before (partPath kPath)) → Harmless list (before kPath) →
    Harmless list (after kPath)

theorem settles_recover (storage : Storage) : Settles storage (recover kPath storage) := by
  rcases recover_cases storage with hsame | ⟨hpath, hpart⟩
  · rw [hsame]
    exact ⟨fun _ hpart ↦ hpart, fun _ _ hpath ↦ hpath⟩
  · refine ⟨fun _ _ ↦ ?_, fun _ hharmless _ ↦ ?_⟩
    · rw [hpart]
      exact harmless_none
    · rwa [hpath]

theorem fresh_recover {job : Job} (hfresh : job.Fresh storage) : job.Fresh (recover kPath storage) := by
  intro happend
  rcases recover_cases storage with hsame | ⟨-, hpart⟩
  · rw [hsame]
    exact hfresh happend
  · exact .inl hpart

section Steps

variable {state : State} {job : Job} (hsound : Sound state)

include hsound

theorem Sound.moved {after : Storage} {job' : Option Job} (hjob : state.job = some job)
    (heffect : Effect job state.storage after)
    (htotals : ∀ later, job' = some later → later.totals = job.totals ∧ later.Fresh after) :
    Sound { state with storage := after, job := job' } where
  kept list htaken := by
    obtain ⟨hkept, hpath⟩ := hsound.kept list htaken
    have hmem := hkept.job job hjob
    refine ⟨⟨heffect.harmless_part hkept.part hmem, fun later hlater ↦ ?_⟩,
      heffect.harmless_path hpath hkept.part⟩
    rw [(htotals later hlater).1]
    exact hmem
  begun list hbegun := by
    have hkept := hsound.begun list hbegun
    have hmem := hkept.job job hjob
    refine ⟨heffect.harmless_part hkept.part hmem, fun later hlater ↦ ?_⟩
    rw [(htotals later hlater).1]
    exact hmem
  fresh later hlater := (htotals later hlater).2

theorem Sound.take : Sound { state with
      job := some { totals := state.memory }
      resetting := state.resetting.map (state.memory :: ·)
      taken := state.taken.map (state.memory :: ·) } where
  kept list htaken := by
    obtain ⟨before, hbefore, rfl⟩ := map_eq_some_iff.mp htaken
    obtain ⟨hkept, hpath⟩ := hsound.kept before hbefore
    refine ⟨⟨hkept.part.mono (subset_cons_self _ _), fun later hlater ↦ ?_⟩,
      hpath.mono (subset_cons_self _ _)⟩
    cases hlater
    exact mem_cons_self
  begun list hbegun := by
    obtain ⟨before, hbefore, rfl⟩ := map_eq_some_iff.mp hbegun
    refine ⟨(hsound.begun before hbefore).part.mono (subset_cons_self _ _), fun later hlater ↦ ?_⟩
    cases hlater
    exact mem_cons_self
  fresh later hlater := by
    cases hlater
    exact nofun

theorem Sound.loaded (hresetting : state.resetting = none) : Sound state.loaded where
  kept list htaken := by
    obtain ⟨hkept, hpath⟩ := hsound.kept list htaken
    have hsettles := settles_recover state.storage
    exact ⟨⟨hsettles.part list hkept.part, hkept.job⟩, hsettles.path list hkept.part hpath⟩
  begun list hbegun := by
    have hnone : state.loaded.resetting = none := hresetting
    rw [hnone] at hbegun
    cases hbegun
  fresh later hlater := fresh_recover (hsound.fresh later hlater)

theorem Sound.zero (hjob : state.job = none)
    (hpart : ¬ Accepts (state.storage (partPath kPath)) {}) :
    Sound { state with memory := applyStatsTotals {}, resetting := some [] } where
  kept list htaken := by
    obtain ⟨hkept, hpath⟩ := hsound.kept list htaken
    exact ⟨⟨hkept.part, hkept.job⟩, hpath⟩
  begun list hbegun := by
    cases hbegun
    refine ⟨harmless_of_not_accepts hpart, fun later hlater ↦ ?_⟩
    rw [hjob] at hlater
    cases hlater
  fresh := hsound.fresh

theorem Sound.remove {list : List DnsStatTotals} (hresetting : state.resetting = some list) :
    Sound { state with
      storage := (Call.remove kPath).apply state.storage
      resetting := none
      taken := some list } where
  kept later htaken := by
    cases htaken
    have hkept := hsound.begun list hresetting
    have hpart : Harmless list ((Call.remove kPath).apply state.storage (partPath kPath)) := by
      rw [Call.apply, update_of_ne part_ne_path]
      exact hkept.part
    have hpath : Harmless list ((Call.remove kPath).apply state.storage kPath) := by
      rw [removed_path]
      exact harmless_none
    exact ⟨⟨hpart, hkept.job⟩, hpath⟩
  begun later hbegun := by cases hbegun
  fresh later hlater happend := by
    have hpart : (Call.remove kPath).apply state.storage (partPath kPath) =
        state.storage (partPath kPath) := update_of_ne part_ne_path _ _
    exact (hsound.fresh later hlater happend).imp hpart.trans hpart.trans

theorem Sound.restart (cut : Nat) : Sound { state with
      memory := {}
      storage := state.job.elim state.storage fun job ↦ job.partly cut state.storage
      job := none
      resetting := none } := by
  refine ⟨fun list htaken ↦ ?_, nofun, nofun⟩
  obtain ⟨hkept, hpath⟩ := hsound.kept list htaken
  cases hjob : state.job with
  | none => exact ⟨⟨hkept.part, nofun⟩, hpath⟩
  | some job =>
    have heffect := effect_partly (hsound.fresh job hjob) cut
    exact ⟨⟨heffect.harmless_part hkept.part (hkept.job job hjob), nofun⟩,
      heffect.harmless_path hpath hkept.part⟩

end Steps

theorem sound_start (storage : Storage) : Sound (start storage) := ⟨nofun, nofun, nofun⟩

theorem sound_step {state state' : State} {event : Event} (hsound : Sound state)
    (hundisturbed : Undisturbed state event) (hstep : Step state event state') : Sound state' := by
  cases event with
  | count more =>
    cases hstep
    exact ⟨fun list htaken ↦ ⟨⟨(hsound.kept list htaken).1.part, (hsound.kept list htaken).1.job⟩,
      (hsound.kept list htaken).2⟩, fun list hbegun ↦ ⟨(hsound.begun list hbegun).part,
      (hsound.begun list hbegun).job⟩, hsound.fresh⟩
  | take =>
    simp only [Step, step] at hstep
    split at hstep
    · cases hstep
    · cases hstep
      exact hsound.take
  | advance =>
    simp only [Step, step] at hstep
    split at hstep
    · cases hstep
    · rename_i job hjob
      split_ifs at hstep with hworks
      cases hstep
      have hended : job.stage.isEnded = false := by
        cases hstage : job.stage.isEnded with
        | false => rfl
        | true => simp [hstage] at hworks
      refine hsound.moved hjob (effect_apply (hsound.fresh job hjob)) fun later hlater ↦ ?_
      cases hlater
      exact ⟨rfl, fresh_next job state.storage hended⟩
  | fail cut =>
    simp only [Step, step] at hstep
    split at hstep
    · cases hstep
    · rename_i job hjob
      split_ifs at hstep
      cases hstep
      refine hsound.moved hjob (effect_partly (hsound.fresh job hjob) cut) fun later hlater ↦ ?_
      cases hlater
      exact ⟨rfl, fresh_onFailure job _⟩
  | conclude holds =>
    simp only [Step, step] at hstep
    split at hstep
    · cases hstep
    · rename_i job hjob
      split at hstep
      · cases hstep
        refine hsound.moved hjob (.unchanged job state.storage) fun later hlater ↦ ?_
        rw [Job.conclude] at hlater
        split_ifs at hlater
        cases hlater
        exact ⟨rfl, nofun⟩
      · cases hstep
  | load =>
    simp only [Step, step] at hstep
    split_ifs at hstep with hresetting
    cases hstep
    exact hsound.loaded (by simpa using hresetting)
  | zero =>
    simp only [Step, step] at hstep
    split_ifs at hstep
    cases hstep
    exact hsound.zero hundisturbed.1 hundisturbed.2
  | remove =>
    simp only [Step, step] at hstep
    split at hstep
    · cases hstep
    · rename_i list hresetting
      cases hstep
      exact hsound.remove hresetting
  | restart cut restore =>
    simp only [Step, step] at hstep
    have hrestart := hsound.restart cut
    cases restore with
    | false =>
      cases hstep
      exact hrestart
    | true =>
      cases hstep
      exact hrestart.loaded rfl

theorem final_of_sound {state : State} (hsound : Sound state) : Final state := by
  intro list htaken totals hload
  obtain ⟨hkept, hpath⟩ := hsound.kept list htaken
  exact (settles_recover state.storage).path list hkept.part hpath totals hload

/-- Where every reset begins undisturbed, no later load restores what was counted before it. -/
theorem reset_is_final {storage : Storage} {events : List Event} {state : State}
    (hrun : Run (fun state event state' ↦ Undisturbed state event ∧ Step state event state')
      (start storage) events state) : Final state := by
  have hkeep : ∀ state event state', Sound state →
      (Undisturbed state event ∧ Step state event state') → Sound state' :=
    fun _ _ _ hsound hstep ↦ sound_step hsound hstep.1 hstep.2
  exact final_of_sound (hrun.preserves hkeep (sound_start storage))

/-! ## Runs -/

def save (holds : Bool) : List Event :=
  [.take, .advance, .advance, .advance, .advance, .advance, .advance, .conclude holds]

def emptyStorage : Storage := fun _ ↦ none

/-- Seven queries are counted and saved, then the statistics are reset, two more are counted and saved. -/
def quietReset : List Event :=
  .count { hits := 7 } :: save true ++ [.zero, .remove, .count { hits := 2 }] ++ save true ++
    [.restart 0 true]

theorem exists_reset_is_final :
    ∃ state, Run (fun state event state' ↦ Undisturbed state event ∧ Step state event state')
      (start emptyStorage) quietReset state ∧ Final state := by
  have hsome : (steps (fun state event ↦ if Undisturbed state event then step state event else none)
      (start emptyStorage) quietReset).isSome = true := by decide +kernel
  obtain ⟨state, hsteps⟩ := isSome_iff_exists.mp hsome
  have hrun : Run (fun state event state' ↦ Undisturbed state event ∧ Step state event state')
      (start emptyStorage) quietReset state :=
    run_of_allowedSteps hsteps
  exact ⟨state, hrun, reset_is_final hrun⟩

/-- The device stops between the last write to a part and its publication, and the file of an earlier
save is there. The reset that follows removes the file, and the start after it publishes the part. -/
def stalePart : List Event :=
  .count { hits := 7 } :: save true ++ [.count { hits := 5 }, .take, .advance, .advance, .advance,
    .restart 0 true, .zero, .remove, .restart 0 true]

/-- A save takes its copy, and the statistics are reset before it writes. -/
def lateSave : List Event :=
  [.count { hits := 7 }, .take, .zero, .remove, .advance, .advance, .advance, .advance, .advance, .advance]

/-- After the events a load restores something, though no copy was taken since the reset. -/
def RestoresOld (events : List Event) : Prop :=
  ∃ state, Run Step (start emptyStorage) events state ∧ ¬ Final state

theorem restoresOld_of_steps {events : List Event}
    (hsteps : (steps step (start emptyStorage) events).any (fun state ↦
      state.taken = some [] ∧ (DnsStatStore.load kPath state.storage {}).2.isOk)) :
    RestoresOld events := by
  obtain ⟨state, hrun, hload⟩ := exists_run_of_any hsteps
  obtain ⟨htaken, hok⟩ := of_decide_eq_true hload
  refine ⟨state, hrun, fun hfinal ↦ ?_⟩
  cases hresult : (DnsStatStore.load kPath state.storage {}).2 with
  | error why =>
    rw [hresult] at hok
    cases hok
  | ok totals => exact absurd (hfinal [] htaken totals hresult) (not_mem_nil)

theorem reset_is_not_final : RestoresOld stalePart ∧ RestoresOld lateSave :=
  ⟨restoresOld_of_steps (by decide +kernel), restoresOld_of_steps (by decide +kernel)⟩

end DhcpServer.Dns.StatsReset
