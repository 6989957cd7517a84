import DhcpServer.Core.JobStarts

/-!
# Records of jobs that have ended

A caller that registers its job in time leaves nothing behind: the task ends the record. A caller
that comes after its task has ended makes a record that nobody ends. The order is left to the
scheduler; `repairStart` registers its job first.
-/

namespace DhcpServer.Core.JobStarts

open Library
open JobRegistry List Option

/-- Every call of `jobFinished` is about an id that `jobStarted` was called with before. -/
def Announced (notes : List Note) : Prop :=
  ∀ before ended rest, notes = before ++ .finished ended :: rest →
    ∃ job, .started job ∈ before ∧ job.id = ended.id

/-- An unfinished record belongs to a job whose task has not finished. -/
structure NoGhost (state : State) : Prop where
  closed : ∀ (kind : Kind) (record : Record), state.shared.registry.recordOf kind.id = some record →
    Registry.Unfinished record.job → ∃ job ∈ state.parties, job.kind.id = kind.id ∧ job.task.Unfinished
  announced : Announced state.shared.notes

/-- A caller registers its job before the task has finished, unless the registry refuses the job,
and a task finishes when no caller is about to announce a job of the same id. -/
def Ordered (state : State) : Event → Prop
  | .move number (.begin now) =>
    ∀ job ∈ state.parties[number]?, job.task.Unfinished ∨
      state.shared.registry.slotFor job.kind.id now = none
  | .move number (.finish _ _ _) =>
    ∀ job ∈ state.parties[number]?, ∀ other ∈ state.parties, other.kind.id = job.kind.id →
      other.starter ≠ .announcing
  | _ => True

theorem Kind.id_mem (kind : Kind) : kind.id ∈ jobIds := by
  cases kind with
  | persist save => cases save <;> decide
  | stats => decide
  | check volumeId budgetBytes =>
    change ascii "file_check" ∈ jobIds
    decide
  | transfer arg =>
    change ascii "transfer" ∈ jobIds
    decide

theorem Kind.id_ne_nil (kind : Kind) : kind.id ≠ [] := by
  intro hnil
  have hmem := kind.id_mem
  rw [hnil] at hmem
  revert hmem
  decide

theorem step_move {state state' : State} {number : Nat} {move : Move}
    (hstep : Step state (.move number move) state') :
    ∃ job, state.parties[number]? = some job ∧ move.Enabled job ∧
      state' = state.replace number (move.apply state.shared job) :=
  Parties.move_eq_some_iff.mp hstep

theorem step_accept {state state' : State} {kind : Kind}
    (hstep : Step state (.accept kind) state') :
    state.shared.flags.free kind ∧
      state' = state.join { state.shared with flags := state.shared.flags.take kind }
        { kind := kind } := by
  rw [Step, step] at hstep
  split_ifs at hstep with hfree
  exact ⟨hfree, (Option.some.inj hstep).symm⟩

theorem step_call {state state' : State} {call : Call} (hstep : Step state (.call call) state') :
    (∀ id ∈ jobIds, call.Foreign id) ∧ state' =
        ⟨{ state.shared with registry := call.apply state.shared.registry }, state.parties⟩ := by
  rw [Step, step] at hstep
  split_ifs at hstep with hforeign
  exact ⟨hforeign, (Option.some.inj hstep).symm⟩

/-! ## The flag of the persist job -/

/-- The job saves or loads the cache and has not given up `persistBusy_`. -/
def Job.Holds (job : Job) (save : Bool) : Prop := job.kind = .persist save ∧ job.task ≠ .gone

structure Flagged (state : State) : Prop where
  fresh : ∀ job ∈ state.parties, job.starter = .creating → job.task = .absent
  busy : ∀ job ∈ state.parties, ∀ save, job.Holds save →
    state.shared.flags.persistBusy = true ∧ state.shared.flags.persistSave = save
  single : ∀ (place other : Nat) (first second : Job) (save saveOther : Bool),
    state.parties[place]? = some first → state.parties[other]? = some second → first.Holds save →
    second.Holds saveOther → place = other

section Flagged

variable {state : State} {shared : Shared} {job : Job} {move : Move} {number : Nat}

@[simp]
theorem Move.kind_apply : (move.apply shared job).2.kind = job.kind := by
  cases move with
  | create created => cases created <;> rfl
  | begin | announce | report | finish | notify | leave => rfl

theorem Move.task_ne_gone (shared : Shared) (henabled : move.Enabled job)
    (hfresh : job.starter = .creating → job.task = .absent)
    (hafter : (move.apply shared job).2.task ≠ .gone ∨ move = .leave ∨ move = .create false) :
    job.task ≠ .gone := by
  intro hgone
  cases move with
  | create => exact absurd ((hfresh henabled).symm.trans hgone) (by simp)
  | begin | announce => simp [Move.apply, hgone] at hafter
  | report => exact absurd (henabled.1.symm.trans hgone) (by simp)
  | finish =>
    rw [Move.Enabled, hgone] at henabled
    split_ifs at henabled
  | notify =>
    rw [Move.Enabled, hgone] at henabled
    exact henabled
  | leave => exact absurd (henabled.symm.trans hgone) (by simp)

theorem Move.task_of_finish {jobState : JobState} {detail : Bytes} {now : Nat}
    (henabled : (Move.finish jobState detail now).Enabled job) : job.task ≠ .gone := by
  rw [show job.task = _ from henabled]
  split_ifs <;> simp

theorem Move.over_of_notify (henabled : Move.notify.Enabled job) : ¬job.task.Unfinished := by
  cases hjob : job.task with
  | notifying ended => exact not_false
  | absent | working | reported | leaving | gone =>
    rw [Move.Enabled, hjob] at henabled
    exact henabled.elim

theorem Move.over_of_leave (henabled : Move.leave.Enabled job) : ¬job.task.Unfinished := by
  rw [show job.task = .leaving from henabled]
  exact not_false

theorem Move.starter_apply (henabled : move.Enabled job)
    (hfresh : job.starter = .creating → job.task = .absent) :
    (move.apply shared job).2.starter ≠ .creating := by
  cases move with
  | create created => cases created <;> simp [Move.apply]
  | begin now =>
    simp only [Move.apply]
    split_ifs <;> simp
  | announce => simp [Move.apply]
  | report =>
    intro hcreating
    exact absurd (henabled.1.symm.trans (hfresh hcreating)) (by simp)
  | finish =>
    intro hcreating
    rw [Move.Enabled, hfresh hcreating] at henabled
    split_ifs at henabled
  | notify =>
    intro hcreating
    rw [Move.Enabled, hfresh hcreating] at henabled
    exact henabled
  | leave =>
    intro hcreating
    exact absurd (henabled.symm.trans (hfresh hcreating)) (by simp)

theorem Move.persist_apply (shared : Shared) (job : Job) (move : Move) :
    (move.apply shared job).1.flags.persistSave = shared.flags.persistSave ∧
      ((move.apply shared job).1.flags.persistBusy = shared.flags.persistBusy ∨
        (∃ save, job.kind = .persist save) ∧ (move.apply shared job).2.task = .gone ∧
          (move = .leave ∨ move = .create false)) := by
  cases move with
  | create created =>
    cases created with
    | true => cases hkind : job.kind <;> simp [Move.apply, Flags.created, hkind]
    | false => cases hkind : job.kind <;> simp [Move.apply, Flags.dropped, hkind]
  | begin | announce | finish | notify => exact ⟨rfl, .inl rfl⟩
  | report => cases hkind : job.kind <;> simp [Move.apply, Flags.reported, hkind]
  | leave => cases hkind : job.kind <;> simp [Move.apply, Flags.left, hkind]

theorem Flagged.moved (hflagged : Flagged state) (hjob : state.parties[number]? = some job)
    (henabled : move.Enabled job) :
    Flagged (state.replace number (move.apply state.shared job)) := by
  have hmem : job ∈ state.parties := mem_of_getElem? hjob
  have hfresh := hflagged.fresh job hmem
  have hholds {save : Bool} (hnew : (move.apply state.shared job).2.Holds save) : job.Holds save :=
    ⟨Move.kind_apply.symm.trans hnew.1, Move.task_ne_gone state.shared henabled hfresh (.inl hnew.2)⟩
  have hplaces (place : Nat) (other : Job) (save : Bool)
      (hother : (state.replace number (move.apply state.shared job)).parties[place]? = some other)
      (hsave : other.Holds save) : ∃ same, state.parties[place]? = some same ∧ same.Holds save := by
    rcases Parties.getElem?_replace hjob hother with ⟨rfl, rfl⟩ | ⟨-, hold⟩
    · exact ⟨job, hjob, hholds hsave⟩
    · exact ⟨other, hold, hsave⟩
  constructor
  · apply Parties.forall_mem_replace hflagged.fresh
    exact fun hcreating ↦ absurd hcreating (Move.starter_apply henabled hfresh)
  · intro other hother save hsave
    obtain ⟨place, hplace⟩ := mem_iff_getElem?.mp hother
    obtain ⟨same, hsame, hsameHolds⟩ := hplaces place other save hplace hsave
    obtain ⟨hbusy, hpersistSave⟩ := hflagged.busy same (mem_of_getElem? hsame) save hsameHolds
    obtain ⟨hkept, hsameBusy | ⟨⟨jobSave, hkind⟩, hgone, hlast⟩⟩ := Move.persist_apply state.shared job move
    · exact ⟨hsameBusy.trans hbusy, hkept.trans hpersistSave⟩
    · -- the job that gives up the flag is the only one that had it
      have hjobHolds : job.Holds jobSave :=
        ⟨hkind, Move.task_ne_gone state.shared henabled hfresh (.inr hlast)⟩
      obtain rfl := hflagged.single number place job same jobSave save hjob hsame hjobHolds hsameHolds
      rcases Parties.getElem?_replace hjob hplace with ⟨-, rfl⟩ | ⟨hne, -⟩
      · exact absurd hgone hsave.2
      · exact absurd rfl hne
  · intro place other first second save saveOther hfirst hsecond hfirstHolds hsecondHolds
    obtain ⟨before, hbefore, hbeforeHolds⟩ := hplaces place first save hfirst hfirstHolds
    obtain ⟨after, hafter, hafterHolds⟩ := hplaces other second saveOther hsecond hsecondHolds
    exact hflagged.single place other before after save saveOther hbefore hafter hbeforeHolds
      hafterHolds

theorem Flagged.accept (hflagged : Flagged state) {kind : Kind}
    (hfree : state.shared.flags.free kind) :
    Flagged (state.join { state.shared with flags := state.shared.flags.take kind }
      { kind := kind }) := by
  have hnobody {save : Bool} (hkind : kind = .persist save) {other : Job} (hother : other ∈ state.parties)
      {saveOther : Bool} (hholds : other.Holds saveOther) : False := by
    rw [hkind, Flags.free, (hflagged.busy other hother saveOther hholds).1] at hfree
    cases hfree
  constructor
  · exact Parties.forall_mem_join hflagged.fresh fun _ ↦ rfl
  · apply Parties.forall_mem_join
    · intro other hother save hsave
      cases kind with
      | persist => exact (hnobody rfl hother hsave).elim
      | stats | check | transfer => exact hflagged.busy other hother save hsave
    · rintro save ⟨rfl, -⟩
      exact ⟨rfl, rfl⟩
  · intro place other first second save saveOther hfirst hsecond hfirstHolds hsecondHolds
    rcases Parties.getElem?_join hfirst with hfirst | ⟨rfl, rfl⟩ <;>
      rcases Parties.getElem?_join hsecond with hsecond | ⟨rfl, rfl⟩
    · exact hflagged.single place other first second save saveOther hfirst hsecond hfirstHolds
        hsecondHolds
    · exact (hnobody hsecondHolds.1 (mem_of_getElem? hfirst) hfirstHolds).elim
    · exact (hnobody hfirstHolds.1 (mem_of_getElem? hsecond) hsecondHolds).elim
    · rfl

theorem flagged_start : Flagged start := by
  constructor
  · simp [start]
  · simp [start]
  · simp [start]

theorem Flagged.finishId_eq (hflagged : Flagged state) (hmem : job ∈ state.parties)
    (htask : job.task ≠ .gone) : finishId state.shared.flags job.kind = job.kind.id := by
  cases hkind : job.kind with
  | persist save =>
    have hholds : job.Holds save := ⟨hkind, htask⟩
    rw [finishId, (hflagged.busy job hmem save hholds).2]
    rfl
  | stats | check | transfer => rfl

end Flagged

/-! ## Records -/

def Recorded (state : State) : Prop :=
  ∀ kind : Kind, state.shared.registry.recordOf kind.id = none ∨ Running state.shared.registry kind.id ∧
      ∃ job ∈ state.parties, job.kind.id = kind.id ∧ job.task.Unfinished

section Recorded

variable {state : State} {job : Job} {number : Nat}

theorem running_congr {registry registry' : Registry} {id : Bytes}
    (hsame : registry'.recordOf id = registry.recordOf id) :
    Running registry' id ↔ Running registry id := by
  rw [Running, Running, hsame]

theorem Recorded.call (hrecorded : Recorded state) {call : Call}
    (hforeign : ∀ id ∈ jobIds, call.Foreign id) :
    Recorded ⟨{ state.shared with registry := call.apply state.shared.registry }, state.parties⟩ := by
  intro kind
  have hkind := hforeign kind.id kind.id_mem
  rcases hrecorded kind with hnone | ⟨hrunning, howner⟩
  · exact .inl (recordOf_apply_none hkind hnone)
  · exact .inr ⟨running_apply hkind hrunning, howner⟩

theorem Recorded.quiet (hrecorded : Recorded state) {shared : Shared} {job' : Job}
    (hjob : state.parties[number]? = some job) (hregistry : shared.registry = state.shared.registry)
    (hkind : job'.kind = job.kind) (htask : job.task.Unfinished → job'.task.Unfinished) :
    Recorded (state.replace number (shared, job')) := by
  intro kind
  change shared.registry.recordOf kind.id = none ∨ Running shared.registry kind.id ∧ _
  rw [hregistry]
  apply (hrecorded kind).imp_right
  rintro ⟨hrunning, howner⟩
  exact ⟨hrunning, Parties.exists_mem_replace hjob (fun hsame ↦ ⟨hkind ▸ hsame.1, htask hsame.2⟩) howner⟩

theorem Recorded.recordOf_begin (hrecorded : Recorded state) (now : Nat) {kind : Kind}
    (hid : kind.id ≠ job.kind.id) :
    (job.kind.begin state.shared.registry now).1.recordOf kind.id =
      state.shared.registry.recordOf kind.id := by
  apply Registry.recordOf_begin_of_ne hid
  intro record hrecord
  rcases hrecorded kind with hnone | ⟨⟨same, hsame, hstate, -⟩, -⟩
  · rw [hnone] at hrecord
    cases hrecord
  · obtain rfl := mem_unique hrecord hsame
    exact hstate

theorem begin_refused {registry : Registry} {now : Nat}
    (hslot : registry.slotFor job.kind.id now = none) :
    job.kind.begin registry now = (registry, false) :=
  Registry.begin_of_slotFor_none hslot

section

variable (hrecorded : Recorded state)
include hrecorded

theorem Recorded.begin {now : Nat}
    (hjob : state.parties[number]? = some job)
    (hordered : job.task.Unfinished ∨ state.shared.registry.slotFor job.kind.id now = none) :
    Recorded (state.replace number (Move.apply state.shared job (.begin now))) := by
  cases hslot : state.shared.registry.slotFor job.kind.id now with
  | none =>
    have hregistry : (job.kind.begin state.shared.registry now).1 = state.shared.registry := by
      rw [begin_refused hslot]
    exact hrecorded.quiet hjob hregistry rfl id
  | some slot =>
    have htask : job.task.Unfinished := hordered.resolve_right (by simp [hslot])
    intro kind
    by_cases hid : kind.id = job.kind.id
    · obtain ⟨-, hrecord⟩ := Registry.begin_of_slotFor job.kind.id_ne_nil hslot
      refine .inr ⟨?_, ?_⟩
      · rw [hid]
        exact ⟨_, hrecord, rfl, by cases job.kind <;> rfl⟩
      · exact ⟨_, Parties.moved_mem_replace hjob, hid.symm, htask⟩
    · have hsame := hrecorded.recordOf_begin now hid
      rcases hrecorded kind with hnone | ⟨hrunning, howner⟩
      · exact .inl (hsame.trans hnone)
      · refine .inr ⟨(running_congr hsame).mpr hrunning, ?_⟩
        exact Parties.exists_mem_replace hjob id howner

theorem Recorded.finish_none {jobState : JobState} {detail : Bytes}
    {now : Nat} (kind : Kind) :
    (state.shared.registry.finish kind.id jobState detail now).recordOf kind.id = none := by
  apply Registry.recordOf_finish_self
  intro record hrecord
  rcases hrecorded kind with hnone | ⟨⟨same, hsame, -, honce⟩, -⟩
  · rw [hnone] at hrecord
    cases hrecord
  · obtain rfl := mem_unique hrecord hsame
    exact honce

theorem Recorded.finish {jobState : JobState} {detail : Bytes}
    {now : Nat} (hjob : state.parties[number]? = some job)
    (hid : finishId state.shared.flags job.kind = job.kind.id) :
    Recorded (state.replace number (Move.apply state.shared job (.finish jobState detail now))) := by
  have hregistry : (Move.apply state.shared job (.finish jobState detail now)).1.registry =
      state.shared.registry.finish job.kind.id jobState detail now := by
    rw [← hid]
    rfl
  intro kind
  rw [Parties.replace, hregistry]
  by_cases hsame : kind.id = job.kind.id
  · apply Or.inl
    rw [hsame]
    exact hrecorded.finish_none job.kind
  · have hother : (state.shared.registry.finish job.kind.id jobState detail now).recordOf kind.id =
        state.shared.registry.recordOf kind.id := Registry.recordOf_update_of_ne hsame
    rcases hrecorded kind with hnone | ⟨hrunning, other, hmem, hkind, htask⟩
    · exact .inl (hother.trans hnone)
    · refine .inr ⟨(running_congr hother).mpr hrunning, ?_⟩
      have hstill : other ∈ (state.replace number
          (Move.apply state.shared job (.finish jobState detail now))).parties := by
        apply (Parties.mem_replace_or_eq hjob hmem).resolve_right
        rintro rfl
        exact hsame hkind.symm
      exact ⟨other, hstill, hkind, htask⟩

theorem Recorded.accept (kind : Kind) :
    Recorded (state.join { state.shared with flags := state.shared.flags.take kind }
      { kind := kind }) := by
  intro other
  apply (hrecorded other).imp_right
  rintro ⟨hrunning, howner⟩
  exact ⟨hrunning, Parties.exists_mem_join howner⟩

theorem Recorded.moved (hflagged : Flagged state) {move : Move}
    (hjob : state.parties[number]? = some job) (henabled : move.Enabled job)
    (hordered : Ordered state (.move number move)) :
    Recorded (state.replace number (move.apply state.shared job)) := by
  have hmem : job ∈ state.parties := mem_of_getElem? hjob
  cases move with
  | create created =>
    have habsent : ¬job.task.Unfinished := by
      rw [hflagged.fresh job hmem henabled]
      exact not_false
    cases created with
    | true | false => exact hrecorded.quiet hjob rfl rfl fun htask ↦ absurd htask habsent
  | begin now => exact hrecorded.begin hjob (hordered job hjob)
  | announce => exact hrecorded.quiet hjob rfl rfl id
  | report => exact hrecorded.quiet hjob rfl rfl fun _ ↦ trivial
  | finish jobState detail now =>
    exact hrecorded.finish hjob (hflagged.finishId_eq hmem (Move.task_of_finish henabled))
  | notify => exact hrecorded.quiet hjob rfl rfl fun htask ↦ absurd htask (Move.over_of_notify henabled)
  | leave => exact hrecorded.quiet hjob rfl rfl fun htask ↦ absurd htask (Move.over_of_leave henabled)

end

end Recorded

/-! ## Notifications -/

def HasStarted (notes : List Note) (id : Bytes) : Prop := ∃ job, .started job ∈ notes ∧ job.id = id

theorem HasStarted.append {notes : List Note} {id : Bytes} (hstarted : HasStarted notes id)
    (later : List Note) : HasStarted (notes ++ later) id :=
  hstarted.imp fun _ h ↦ ⟨mem_append_left later h.1, h.2⟩

theorem Announced.append {notes : List Note} {note : Note} (hannounced : Announced notes)
    (hlast : ∀ ended, note = .finished ended → HasStarted notes ended.id) :
    Announced (notes ++ [note]) := by
  intro before ended rest hsplit
  rcases eq_nil_or_concat rest with rfl | ⟨rest, last, rfl⟩
  · obtain ⟨rfl, hnote⟩ := append_inj' hsplit rfl
    exact hlast ended (cons.inj hnote).1
  · rw [concat_eq_append, ← cons_append, ← append_assoc] at hsplit
    exact hannounced before ended rest (append_inj' hsplit rfl).1

structure Noted (state : State) : Prop where
  known : ∀ kind : Kind, state.shared.registry.recordOf kind.id ≠ none →
    HasStarted state.shared.notes kind.id ∨
      ∃ job ∈ state.parties, job.kind.id = kind.id ∧ job.starter = .announcing
  pending : ∀ job ∈ state.parties, ∀ ended ∈ job.task.ended, HasStarted state.shared.notes ended.id
  announced : Announced state.shared.notes

section Noted

variable {state : State} {job : Job} {number : Nat} {move : Move}

theorem Noted.call (hnoted : Noted state) {call : Call} (hforeign : ∀ id ∈ jobIds, call.Foreign id) :
    Noted ⟨{ state.shared with registry := call.apply state.shared.registry }, state.parties⟩ where
  known := fun kind hrecord ↦ hnoted.known kind fun hnone ↦
    hrecord (recordOf_apply_none (hforeign kind.id kind.id_mem) hnone)
  pending := hnoted.pending
  announced := hnoted.announced

theorem Noted.of_move (hnoted : Noted state) {shared : Shared} {job' : Job}
    (hjob : state.parties[number]? = some job)
    (hrecord : ∀ kind : Kind, shared.registry.recordOf kind.id ≠ none →
      state.shared.registry.recordOf kind.id ≠ none ∨ job'.kind.id = kind.id ∧ job'.starter = .announcing)
    (hnotes : ∀ id, HasStarted state.shared.notes id → HasStarted shared.notes id)
    (hstarter : job.starter = .announcing →
      job'.kind = job.kind ∧ job'.starter = .announcing ∨ HasStarted shared.notes job.kind.id)
    (hpending : ∀ ended ∈ job'.task.ended, HasStarted shared.notes ended.id)
    (hannounced : Announced shared.notes) : Noted (state.replace number (shared, job')) := by
  constructor
  · intro kind hnew
    rcases hrecord kind hnew with hold | hannouncing
    · rcases hnoted.known kind hold with hstarted | ⟨other, hmem, hkind, hannouncing⟩
      · exact .inl (hnotes kind.id hstarted)
      · rcases Parties.mem_replace_or_eq hjob hmem with hstill | rfl
        · exact .inr ⟨other, hstill, hkind, hannouncing⟩
        · rcases hstarter hannouncing with ⟨hkindNew, hstill⟩ | hstarted
          · exact .inr ⟨job', Parties.moved_mem_replace hjob, hkindNew ▸ hkind, hstill⟩
          · exact .inl (hkind ▸ hstarted)
    · exact .inr ⟨job', Parties.moved_mem_replace hjob, hannouncing⟩
  · intro other hother ended hended
    rcases Parties.mem_replace hother with hmem | rfl
    · exact hnotes ended.id (hnoted.pending other hmem ended hended)
    · exact hpending ended hended
  · exact hannounced

theorem Noted.quiet (hnoted : Noted state) {flags : Flags} {job' : Job}
    (hjob : state.parties[number]? = some job)
    (hstarter : job.starter = .announcing → job'.kind = job.kind ∧ job'.starter = .announcing)
    (hended : job'.task.ended = none) :
    Noted (state.replace number ({ state.shared with flags }, job')) :=
  hnoted.of_move hjob (fun _ h ↦ .inl h) (fun _ h ↦ h) (fun h ↦ .inl (hstarter h))
    (by simp [hended]) hnoted.announced

theorem endedCopy_id {registry : Registry} {id detail : Bytes} {jobState : JobState}
    {ended : JobInfo} (hended : ended ∈ endedCopy registry id jobState detail) :
    ended.id = id ∧ registry.recordOf id ≠ none := by
  obtain ⟨record, hrecord, rfl⟩ := map_eq_some_iff.mp hended
  exact ⟨(Registry.recordOf_eq_some_iff.mp hrecord).1, by simp [hrecord]⟩

theorem Recorded.begin_known (hrecorded : Recorded state) {now : Nat} {kind : Kind}
    (hnew : (Move.apply state.shared job (.begin now)).1.registry.recordOf kind.id ≠ none) :
    state.shared.registry.recordOf kind.id ≠ none ∨
      (Move.apply state.shared job (.begin now)).2.kind.id = kind.id ∧
        (Move.apply state.shared job (.begin now)).2.starter = .announcing := by
  simp only [Move.apply] at hnew ⊢
  by_cases hid : kind.id = job.kind.id
  · cases hslot : state.shared.registry.slotFor job.kind.id now with
    | none =>
      rw [begin_refused hslot] at hnew
      exact .inl hnew
    | some slot =>
      have hbegun : (job.kind.begin state.shared.registry now).2 :=
        (Registry.begin_of_slotFor job.kind.id_ne_nil hslot).1
      exact .inr ⟨hid.symm, by rw [hbegun, if_pos rfl]⟩
  · rw [hrecorded.recordOf_begin now hid] at hnew
    exact .inl hnew

theorem Noted.moved (hnoted : Noted state) (hrecorded : Recorded state) (hflagged : Flagged state)
    (hjob : state.parties[number]? = some job) (henabled : move.Enabled job)
    (hordered : Ordered state (.move number move)) :
    Noted (state.replace number (move.apply state.shared job)) := by
  have hmem : job ∈ state.parties := mem_of_getElem? hjob
  cases move with
  | create created =>
    have hnot : job.starter ≠ .announcing := by
      rw [show job.starter = .creating from henabled]
      simp
    cases created with
    | true | false => exact hnoted.quiet hjob (fun h ↦ absurd h hnot) rfl
  | begin now =>
    have hnot : job.starter ≠ .announcing := by
      rw [show job.starter = .registering from henabled]
      simp
    refine hnoted.of_move hjob ?_ (fun _ h ↦ h) (fun h ↦ absurd h hnot) (hnoted.pending job hmem)
      hnoted.announced
    exact fun kind hnew ↦ hrecorded.begin_known hnew
  | announce =>
    have hstarted : HasStarted (state.shared.notes ++ [.started job.kind.info]) job.kind.id :=
      ⟨job.kind.info, by simp, rfl⟩
    refine hnoted.of_move hjob (fun _ h ↦ .inl h) (fun _ h ↦ h.append _) (fun _ ↦ .inr hstarted) ?_ ?_
    · exact fun ended hended ↦ (hnoted.pending job hmem ended hended).append _
    · exact hnoted.announced.append (by simp)
  | finish jobState detail now =>
    have hid := hflagged.finishId_eq hmem (Move.task_of_finish henabled)
    refine hnoted.of_move hjob ?_ (fun _ h ↦ h) (fun h ↦ .inl ⟨rfl, h⟩) ?_ hnoted.announced
    · intro kind hnew
      simp only [hid] at hnew
      by_cases hsame : kind.id = job.kind.id
      · exact absurd (hsame ▸ hrecorded.finish_none job.kind) hnew
      · exact .inl fun hnone ↦ hnew ((Registry.recordOf_update_of_ne hsame).trans hnone)
    · intro ended hended
      obtain ⟨hendedId, hrecord⟩ := endedCopy_id hended
      rw [hid] at hendedId hrecord
      rw [hendedId]
      apply (hnoted.known job.kind hrecord).resolve_right
      rintro ⟨other, hother, hkind, hannouncing⟩
      exact hordered job hjob other hother hkind hannouncing
  | report => exact hnoted.quiet hjob (fun h ↦ ⟨rfl, h⟩) rfl
  | notify =>
    refine hnoted.of_move hjob (fun _ h ↦ .inl h) (fun _ h ↦ h.append _) (fun h ↦ .inl ⟨rfl, h⟩)
      (by simp [Task.ended]) ?_
    have hpending := hnoted.pending job hmem
    cases hended : job.task.ended with
    | none => simpa using hnoted.announced
    | some ended =>
      apply hnoted.announced.append
      rintro _ ⟨rfl⟩
      exact hpending ended hended
  | leave => exact hnoted.quiet hjob (fun h ↦ ⟨rfl, h⟩) rfl

theorem Noted.accept (hnoted : Noted state) (kind : Kind) :
    Noted (state.join { state.shared with flags := state.shared.flags.take kind }
      { kind := kind }) := by
  constructor
  · intro other hrecord
    exact (hnoted.known other hrecord).imp_right Parties.exists_mem_join
  · exact Parties.forall_mem_join hnoted.pending (by simp [Task.ended])
  · exact hnoted.announced

end Noted

/-! ## Every run -/

structure Sound (state : State) : Prop where
  flagged : Flagged state
  recorded : Recorded state
  noted : Noted state

theorem sound_start : Sound start := by
  refine ⟨flagged_start, fun kind ↦ .inl ?_, ?_, by simp [start], ?_⟩
  · exact Registry.recordOf_empty kind.id
  · exact fun kind hrecord ↦ absurd (Registry.recordOf_empty kind.id) hrecord
  · intro before ended rest hsplit
    simp [start] at hsplit

theorem sound_step {state state' : State} {event : Event} (hsound : Sound state)
    (hstep : Ordered state event ∧ Step state event state') : Sound state' := by
  obtain ⟨hordered, hstep⟩ := hstep
  cases event with
  | accept kind =>
    obtain ⟨hfree, rfl⟩ := step_accept hstep
    exact ⟨hsound.flagged.accept hfree, hsound.recorded.accept kind, hsound.noted.accept kind⟩
  | move number move =>
    obtain ⟨job, hjob, henabled, rfl⟩ := step_move hstep
    exact ⟨hsound.flagged.moved hjob henabled, hsound.recorded.moved hsound.flagged hjob henabled hordered,
      hsound.noted.moved hsound.recorded hsound.flagged hjob henabled hordered⟩
  | call call =>
    obtain ⟨hforeign, rfl⟩ := step_call hstep
    exact ⟨⟨hsound.flagged.fresh, hsound.flagged.busy, hsound.flagged.single⟩,
      hsound.recorded.call hforeign, hsound.noted.call hforeign⟩

theorem Sound.noGhost {state : State} (hsound : Sound state) : NoGhost state where
  closed := by
    intro kind record hrecord _
    apply ((hsound.recorded kind).resolve_left _).2
    simp [hrecord]
  announced := hsound.noted.announced

/-- Where every caller registers its job in time, no job leaves a record behind and no end is
announced before its start. -/
theorem no_ghost_job {events : List Event} {state : State}
    (hrun : Run (fun state event state' ↦ Ordered state event ∧ Step state event state') start
      events state) : NoGhost state := by
  have hsound : Sound state := hrun.preserves (fun _ _ _ hsound hstep ↦ sound_step hsound hstep) sound_start
  exact hsound.noGhost

instance (state : State) : (event : Event) → Decidable (Ordered state event)
  | .move number (.begin _) => inferInstanceAs (Decidable (∀ job ∈ state.parties[number]?, _))
  | .move number (.finish _ _ _) =>
    inferInstanceAs (Decidable (∀ job ∈ state.parties[number]?, ∀ other ∈ state.parties, _ → _))
  | .accept _ | .call _ | .move _ (.create _) | .move _ .announce | .move _ .report
  | .move _ .notify | .move _ .leave => inferInstanceAs (Decidable True)

def promptSave : List Event :=
  [.accept .stats, .move 0 (.create true), .move 0 (.begin 0), .move 0 .announce,
    .move 0 (.finish .done [] 5), .move 0 .notify, .move 0 .leave]

theorem exists_no_ghost_job :
    ∃ state, Run (fun state event state' ↦ Ordered state event ∧ Step state event state') start
      promptSave state ∧ NoGhost state := by
  have hsome : (steps (fun state event ↦ if Ordered state event then step state event else none)
      start promptSave).isSome = true := by decide +kernel
  obtain ⟨state, hsteps⟩ := isSome_iff_exists.mp hsome
  have hrun : Run (fun state event state' ↦ Ordered state event ∧ Step state event state') start
      promptSave state :=
    run_of_allowedSteps hsteps
  exact ⟨state, hrun, no_ghost_job hrun⟩

/-- The task of the same save ends before its caller comes to `begin`. -/
def quickSave : List Event :=
  [.accept .stats, .move 0 (.create true), .move 0 (.finish .done [] 5), .move 0 .notify,
    .move 0 .leave, .move 0 (.begin 6), .move 0 .announce]

theorem quick_save_leaves_ghost :
    ¬∀ (events : List Event) (state : State), Run Step start events state → NoGhost state := by
  intro hall
  have hsome : (steps step start quickSave).isSome = true := by decide +kernel
  obtain ⟨state, hsteps⟩ := isSome_iff_exists.mp hsome
  have hrecord : (steps step start quickSave).any (fun state ↦
      (state.shared.registry.recordOf Kind.stats.id).any fun record ↦
        decide (Registry.Unfinished record.job)) = true := by decide +kernel
  have htasks : (steps step start quickSave).any (fun state ↦
      state.parties.all fun job ↦ !decide job.task.Unfinished) = true := by decide +kernel
  rw [hsteps, any_some] at hrecord htasks
  obtain ⟨record, hrecord, hunfinished⟩ := (Option.any_eq_true _ _).mp hrecord
  obtain ⟨job, hmem, -, htask⟩ :=
    (hall quickSave state (run_of_steps hsteps)).closed .stats record hrecord
      (of_decide_eq_true hunfinished)
  have hover := List.all_eq_true.mp htasks job hmem
  simp [htask] at hover

end DhcpServer.Core.JobStarts
