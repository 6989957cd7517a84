import DhcpServer.Core.JobRegistry

/-!
# Records of unfinished jobs

What `begin` may do to the records of other operations. Where every slot is taken, the record that
goes is the oldest one that is not running, and of several as old the one in the last slot. This
spares every unfinished job as long as that record is not a paused one.
-/

namespace DhcpServer.Core.JobRegistry

open Library List Option

namespace Registry

variable {registry : Registry} {id other : Bytes} {slot : Fin kMaxJobs} {record : Record} {now : Nat}

/-- The victim search prefers the left record to the right one. -/
def Precedes (left right : Fin kMaxJobs × Record) : Prop :=
  left.2.started < right.2.started ∨ left.2.started = right.2.started ∧ right.1 < left.1

/-- What the victim search knows of the slots it has seen. -/
structure Best (registry : Registry) (now : Nat) (seen : List (Fin kMaxJobs))
    (best : Option (Fin kMaxJobs) × Nat) : Prop where
  le_now : best.2 ≤ now
  start : best.1 = none → best.2 = now
  chosen : ∀ slot ∈ best.1, slot ∈ seen ∧ ∃ record, registry.slots slot = some record ∧
    record.job.state ≠ .running ∧ record.started = best.2
  first : ∀ slot ∈ seen, ∀ record, registry.slots slot = some record →
    record.job.state ≠ .running → record.started ≤ now →
    ∃ chosen ∈ best.1, best.2 < record.started ∨ best.2 = record.started ∧ slot ≤ chosen

theorem Best.older {seen : List (Fin kMaxJobs)} {best : Option (Fin kMaxJobs) × Nat}
    (hbest : Best registry now seen best) (hslot : ∀ before ∈ seen, before < slot) :
    Best registry now (seen ++ [slot]) (registry.older best slot) := by
  have hkeep (hslot : ∀ record, registry.slots slot = some record →
      record.job.state ≠ .running → record.started ≤ now → best.2 < record.started ∧
        best.1.isSome) : Best registry now (seen ++ [slot]) best := by
    refine ⟨hbest.le_now, hbest.start, ?_, ?_⟩
    · intro place hplace
      obtain ⟨hseen, hrecord⟩ := hbest.chosen place hplace
      exact ⟨mem_append_left _ hseen, hrecord⟩
    · intro place hplace record hrecord hstate hnow
      rcases mem_append.mp hplace with hseen | hlast
      · exact hbest.first place hseen record hrecord hstate hnow
      · obtain rfl := mem_singleton.mp hlast
        obtain ⟨hlt, hsome⟩ := hslot record hrecord hstate hnow
        obtain ⟨chosen, hchosen⟩ := isSome_iff_exists.mp hsome
        exact ⟨chosen, hchosen, .inl hlt⟩
  rw [Registry.older]
  split
  case h_1 hnone =>
    apply hkeep
    intro record hrecord
    rw [hnone] at hrecord
    cases hrecord
  case h_2 record hrecord =>
    split_ifs with hrunning hstarted
    · apply hkeep
      intro same hsame hstate
      obtain rfl := mem_unique hrecord hsame
      exact absurd hrunning hstate
    · refine ⟨hstarted.trans hbest.le_now, by simp, ?_, ?_⟩
      · rintro place ⟨rfl⟩
        exact ⟨mem_append_right _ mem_cons_self, record, hrecord, hrunning, rfl⟩
      · intro place hplace same hsame hstate hnow
        refine ⟨slot, rfl, ?_⟩
        rcases mem_append.mp hplace with hseen | hlast
        · obtain ⟨chosen, -, hlt | ⟨heq, -⟩⟩ := hbest.first place hseen same hsame hstate hnow
          · exact .inl (lt_of_le_of_lt hstarted hlt)
          · rcases hstarted.lt_or_eq with hlt | hsameTime
            · exact .inl (heq ▸ hlt)
            · exact .inr ⟨hsameTime.trans heq, (hslot place hseen).le⟩
        · obtain rfl := mem_singleton.mp hlast
          obtain rfl := mem_unique hrecord hsame
          exact .inr ⟨rfl, le_rfl⟩
    · apply hkeep
      intro same hsame _ hnow
      obtain rfl := mem_unique hrecord hsame
      refine ⟨not_le.mp hstarted, ?_⟩
      rw [isSome_iff_ne_none]
      exact fun hnone ↦ hstarted (hbest.start hnone ▸ hnow)

theorem Best.foldl {seen slots : List (Fin kMaxJobs)} {best : Option (Fin kMaxJobs) × Nat}
    (hbest : Best registry now seen best) (hsorted : (seen ++ slots).Pairwise (· < ·)) :
    Best registry now (seen ++ slots) (slots.foldl registry.older best) := by
  induction slots generalizing seen best with
  | nil => rwa [append_nil]
  | cons slot slots ih =>
    have hbefore : ∀ before ∈ seen, before < slot :=
      fun before hmem ↦ (pairwise_append.mp hsorted).2.2 before hmem slot mem_cons_self
    rw [append_cons] at hsorted ⊢
    exact ih (hbest.older hbefore) hsorted

theorem best_oldest (registry : Registry) (now : Nat) : Best registry now (List.finRange kMaxJobs)
      ((List.finRange kMaxJobs).foldl registry.older (none, now)) := by
  have hfirst : Best registry now [] (none, now) := ⟨le_rfl, by simp, by simp, by simp⟩
  exact hfirst.foldl (pairwise_lt_finRange kMaxJobs)

def Victim (registry : Registry) (slot : Fin kMaxJobs) (record : Record) : Prop :=
  registry.slots slot = some record ∧ record.job.state ≠ .running ∧
    ∀ other same, registry.slots other = some same → same.job.state ≠ .running → other ≠ slot →
      Precedes (slot, record) (other, same)

def Started (registry : Registry) (now : Nat) : Prop :=
  ∀ slot record, registry.slots slot = some record → record.started ≤ now

theorem oldest?_eq_some_iff (hstarted : Started registry now) :
    registry.oldest? now = some slot ↔ ∃ record, Victim registry slot record := by
  have hbest := best_oldest registry now
  constructor
  · intro hslot
    obtain ⟨-, record, hrecord, hstate, htime⟩ := hbest.chosen slot hslot
    refine ⟨record, hrecord, hstate, ?_⟩
    intro other same hsame hrunning hne
    obtain ⟨chosen, hchosen, hfirst⟩ := hbest.first other (mem_finRange other) same hsame
      hrunning (hstarted other same hsame)
    obtain rfl : chosen = slot := mem_unique hchosen hslot
    rw [← htime] at hfirst
    exact hfirst.imp_right fun ⟨heq, hle⟩ ↦ ⟨heq, lt_of_le_of_ne hle hne⟩
  · rintro ⟨record, hrecord, hstate, hvictim⟩
    obtain ⟨chosen, hchosen, hfirst⟩ := hbest.first slot (mem_finRange slot) record hrecord
      hstate (hstarted slot record hrecord)
    obtain ⟨-, same, hsame, hrunning, htime⟩ := hbest.chosen chosen hchosen
    suffices hequal : chosen = slot from hequal ▸ hchosen
    by_contra hne
    have hbefore := hvictim chosen same hsame hrunning hne
    rw [Precedes] at hbefore
    dsimp only at hbefore
    omega

theorem oldest?_eq_none_iff (hstarted : Started registry now) : registry.oldest? now = none ↔
      ∀ slot record, registry.slots slot = some record → record.job.state = .running := by
  have hbest := best_oldest registry now
  constructor
  · intro hnone slot record hrecord
    by_contra hstate
    obtain ⟨chosen, hchosen, -⟩ := hbest.first slot (mem_finRange slot) record hrecord hstate
      (hstarted slot record hrecord)
    rw [oldest?, hchosen] at hnone
    cases hnone
  · intro hall
    rw [eq_none_iff_forall_ne_some]
    intro slot hslot
    obtain ⟨record, hrecord, hstate⟩ := oldest?_spec hslot
    exact hstate (hall slot record hrecord)

def Occupied (registry : Registry) : Prop :=
  ∀ slot, ∃ record, registry.slots slot = some record ∧ Unfinished record.job

/-- What `begin` owes the other jobs, given what it makes of the registry and what it returns. -/
structure BeginKeeps (registry : Registry) (id : Bytes) (result : Registry × Bool) : Prop where
  spares : ∀ other, other ≠ id → ∀ record, registry.recordOf other = some record →
    Unfinished record.job → result.1.recordOf other = some record
  refuses : registry.recordOf id = none → result.2 = false → Occupied registry

/-- `begin` has a name for the job, and where it has to replace a record, the oldest one that is not
running has ended. -/
structure BeginSafe (registry : Registry) (id : Bytes) : Prop where
  named : id = [] → registry.recordOf id = none → Occupied registry
  victim : id ≠ [] → registry.recordOf id = none → (∀ slot, registry.slots slot ≠ none) →
    ∀ slot record, Victim registry slot record → record.job.state ≠ .paused

theorem find_eq_none_of_recordOf (hnone : registry.recordOf id = none) : registry.find id = none := by
  rw [eq_none_iff_forall_ne_some]
  intro slot hfind
  obtain ⟨record, hrecord, -⟩ := find_eq_some_iff.mp hfind
  rw [recordOf, hfind, bind_some, hrecord] at hnone
  cases hnone

theorem free?_eq_none_iff : registry.free? = none ↔ ∀ slot, registry.slots slot ≠ none := by
  rw [free?, find?_eq_none]
  simp

section Begin

variable {titleKey arg : Bytes} {total repeatSec : UInt32} {unit : JobUnit}

theorem slots_begin (hid : id ≠ []) (hslot : registry.slotFor id now = some slot) :
    (registry.begin id titleKey arg total unit repeatSec now).1.slots =
      Function.update registry.slots slot
        (some ⟨{ id, titleKey, arg, total, unit, repeatSec }, now, 0⟩) := by
  rw [begin, if_neg hid]
  split
  case h_1 hnone =>
    rw [hslot] at hnone
    cases hnone
  case h_2 place hplace =>
    obtain rfl : slot = place := Option.some.inj (hslot.symm.trans hplace)
    rfl

theorem begin_of_nil : registry.begin [] titleKey arg total unit repeatSec now = (registry, false) :=
  by rw [begin, if_pos rfl]

section

variable (hstarted : Started registry now)
include hstarted

theorem idle_of_slotFor (hslot : registry.slotFor id now = some slot)
    (hsafe : registry.recordOf id = none → (∀ slot, registry.slots slot ≠ none) →
      ∀ slot record, Victim registry slot record → record.job.state ≠ .paused)
    (hrecord : registry.slots slot = some record) (hid : record.job.id ≠ id) :
    ¬Unfinished record.job := by
  rcases slotFor_spec hslot with ⟨same, hsame, hsameId⟩ | ⟨hfind, hidle⟩
  · obtain rfl := mem_unique hrecord hsame
    exact absurd hsameId hid
  · have hnone : registry.recordOf id = none := by rw [recordOf, hfind, bind_none]
    rw [slotFor, hfind, none_or] at hslot
    cases hfree : registry.free? with
    | some free =>
      rw [hfree, some_or] at hslot
      cases hslot
      have hempty := find?_some hfree
      simp [hrecord] at hempty
    | none =>
      rw [hfree, none_or, oldest?_eq_some_iff hstarted] at hslot
      obtain ⟨same, hvictim⟩ := hslot
      obtain rfl := mem_unique hrecord hvictim.1
      rintro (hrunning | hpaused)
      · exact hvictim.2.1 hrunning
      · exact hsafe hnone (free?_eq_none_iff.mp hfree) slot record hvictim hpaused

theorem occupied_of_slotFor_none
    (hslot : registry.slotFor id now = none) : Occupied registry := by
  rw [slotFor, or_eq_none_iff, or_eq_none_iff, oldest?_eq_none_iff hstarted, free?_eq_none_iff] at hslot
  obtain ⟨⟨-, hfull⟩, hrunning⟩ := hslot
  intro slot
  obtain ⟨record, hrecord⟩ := ne_none_iff_exists'.mp (hfull slot)
  exact ⟨record, hrecord, .inl (hrunning slot record hrecord)⟩

theorem BeginSafe.keeps (hsafe : BeginSafe registry id) :
    BeginKeeps registry id (registry.begin id titleKey arg total unit repeatSec now) := by
  by_cases hid : id = []
  · subst hid
    rw [begin_of_nil]
    exact ⟨fun _ _ _ hrecord _ ↦ hrecord, fun hnone _ ↦ hsafe.named rfl hnone⟩
  cases hslot : registry.slotFor id now with
  | none =>
    rw [begin_of_slotFor_none hslot]
    exact ⟨fun _ _ _ hrecord _ ↦ hrecord, fun _ _ ↦ occupied_of_slotFor_none hstarted hslot⟩
  | some slot =>
    refine ⟨?_, ?_⟩
    · intro other hother record hrecord hunfinished
      rw [← hrecord]
      apply recordOf_set_of_ne (slots_begin hid hslot)
      · rintro same hsame rfl
        have hlookup : registry.recordOf same.job.id = some same :=
          recordOf_eq_some_iff.mpr ⟨rfl, slot, hsame⟩
        obtain rfl := mem_unique hrecord hlookup
        exact idle_of_slotFor hstarted hslot (hsafe.victim hid) hsame hother hunfinished
      · rintro _ ⟨rfl⟩
        exact hother.symm
    · intro _ hfalse
      rw [(begin_of_slotFor hid hslot).1] at hfalse
      cases hfalse

theorem BeginKeeps.safe
    (hkeeps : BeginKeeps registry id (registry.begin id titleKey arg total unit repeatSec now)) :
    BeginSafe registry id := by
  constructor
  · rintro rfl hnone
    exact hkeeps.refuses hnone (by rw [begin_of_nil])
  · intro hid hnone hfull slot record hvictim hpaused
    have hslot : registry.slotFor id now = some slot := by
      rw [slotFor, find_eq_none_of_recordOf hnone, free?_eq_none_iff.mpr hfull]
      exact (oldest?_eq_some_iff hstarted).mpr ⟨record, hvictim⟩
    have hlookup : registry.recordOf record.job.id = some record :=
      recordOf_eq_some_iff.mpr ⟨rfl, slot, hvictim.1⟩
    have hother : record.job.id ≠ id := by
      intro heq
      rw [heq, hnone] at hlookup
      cases hlookup
    -- the record would have to be in another slot now, where it was not before
    have hafter := hkeeps.spares _ hother record hlookup (.inr hpaused)
    obtain ⟨-, place, hplace⟩ := recordOf_eq_some_iff.mp hafter
    rw [slots_begin hid hslot] at hplace
    by_cases heq : place = slot
    · subst heq
      rw [Function.update_self] at hplace
      exact hother (congrArg (fun record ↦ record.job.id) (Option.some.inj hplace)).symm
    · rw [Function.update_of_ne heq] at hplace
      exact heq (registry.distinct place slot record record hplace hvictim.1 rfl)

end

end Begin

theorem started_update {change : Change} (hstarted : Started registry now)
    (hchange : ∀ record, ∀ changed ∈ change.apply record, changed.started = record.started) :
    Started (registry.update id change) now := by
  rw [update]
  split
  case h_1 => exact hstarted
  case h_2 slot _ =>
    intro place record hplace
    simp only [set] at hplace
    by_cases heq : place = slot
    · rw [heq, Function.update_self] at hplace
      obtain ⟨old, hold, hnew⟩ := bind_eq_some_iff.mp hplace
      rw [hchange old record hnew]
      exact hstarted slot old hold
    · rw [Function.update_of_ne heq] at hplace
      exact hstarted place record hplace

theorem started_begin {titleKey arg : Bytes} {total repeatSec : UInt32} {unit : JobUnit}
    (hstarted : Started registry now) :
    Started (registry.begin id titleKey arg total unit repeatSec now).1 now := by
  by_cases hid : id = []
  · subst hid
    rwa [begin_of_nil]
  cases hslot : registry.slotFor id now with
  | none => rwa [begin_of_slotFor_none hslot]
  | some slot =>
    intro place record hplace
    rw [slots_begin hid hslot] at hplace
    by_cases heq : place = slot
    · rw [heq, Function.update_self] at hplace
      rw [← Option.some.inj hplace]
    · rw [Function.update_of_ne heq] at hplace
      exact hstarted place record hplace

end Registry

open Registry

inductive Request
  | begin (id titleKey arg : Bytes) (total : UInt32) (unit : JobUnit) (repeatSec : UInt32)
  | progress (id : Bytes) (done total : UInt32) (detail : Bytes)
  | pause (id detail : Bytes) (seconds : UInt32)
  | finish (id : Bytes) (state : JobState) (detail : Bytes)
  | requestCancel (id : Bytes)

def Request.at (now : Nat) : Request → Call
  | begin id titleKey arg total unit repeatSec => .begin id titleKey arg total unit repeatSec now
  | progress id done total detail => .progress id done total detail
  | pause id detail seconds => .pause id detail seconds
  | finish id state detail => .finish id state detail now
  | requestCancel id => .requestCancel id

structure Timed where
  registry : Registry
  now : Nat

def Timed.next (state : Timed) (event : Nat × Request) : Timed :=
  ⟨(event.2.at (state.now + event.1)).apply state.registry, state.now + event.1⟩

/-- The registry of a device that started at `start`, after some calls. -/
def timedAfter (start : Nat) (events : List (Nat × Request)) : Timed :=
  events.foldl Timed.next ⟨.empty, start⟩

theorem started_next {state : Timed} (hstarted : Started state.registry state.now)
    (event : Nat × Request) : Started (state.next event).registry (state.next event).now := by
  obtain ⟨wait, request⟩ := event
  have hlater : Started state.registry (state.now + wait) :=
    fun slot record hrecord ↦ (hstarted slot record hrecord).trans (Nat.le_add_right _ _)
  cases request with
  | begin id titleKey arg total unit repeatSec => exact started_begin hlater
  | progress id done total detail => exact started_update hlater (by simp)
  | pause id detail seconds => exact started_update hlater (by simp)
  | finish id state detail =>
    apply started_update hlater
    intro record changed hchanged
    by_cases honce : record.job.repeatSec = 0
    · simp [honce] at hchanged
    · simp only [honce, if_false, mem_some_iff] at hchanged
      rw [← hchanged]
  | requestCancel id =>
    simp only [Timed.next, Request.at, Call.apply, requestCancel]
    split
    · exact hlater
    · split_ifs
      · exact started_update hlater (by simp)
      · exact hlater

theorem started_after (start : Nat) (events : List (Nat × Request)) :
    Started (timedAfter start events).registry (timedAfter start events).now := by
  apply foldlRecOn (motive := fun state : Timed ↦ Started state.registry state.now)
  · intro slot record hrecord
    cases hrecord
  · intro state hstarted event _
    exact started_next hstarted event

/-- What a call owes the jobs of the registry it is made on. -/
def Timed.Keeps (state : Timed) (event : Nat × Request) : Prop :=
  (∀ slot other record same, (state.next event).registry.slots slot = some record →
    (state.next event).registry.slots other = some same → record.job.id = same.job.id →
    slot = other) ∧
  match event.2 with
  | .begin id titleKey arg total unit repeatSec =>
    BeginKeeps state.registry id
      (state.registry.begin id titleKey arg total unit repeatSec (state.now + event.1))
  | _ => True

def Timed.Safe (state : Timed) (event : Nat × Request) : Prop :=
  match event.2 with
  | .begin id _ _ _ _ _ => BeginSafe state.registry id
  | _ => True

theorem keeps_iff_safe {state : Timed} (hstarted : Started state.registry state.now)
    (event : Nat × Request) : state.Keeps event ↔ state.Safe event := by
  obtain ⟨wait, request⟩ := event
  rw [Timed.Keeps, and_iff_right (state.next (wait, request)).registry.distinct]
  cases request with
  | begin id titleKey arg total unit repeatSec =>
    have hlater : Started state.registry (state.now + wait) :=
      fun slot record hrecord ↦ (hstarted slot record hrecord).trans (Nat.le_add_right _ _)
    exact ⟨BeginKeeps.safe hlater, BeginSafe.keeps hlater⟩
  | progress | pause | finish | requestCancel => exact Iff.rfl

/-- The calls of a sequence keep every unfinished job exactly if none of them is made where it would
take the slot of a paused one. -/
theorem keeps_unfinished_iff (start : Nat) (events : List (Nat × Request)) :
    (∀ before event rest, events = before ++ event :: rest → (timedAfter start before).Keeps event) ↔
    ∀ before event rest, events = before ++ event :: rest → (timedAfter start before).Safe event := by
  apply forall_congr'
  intro before
  apply forall_congr'
  intro event
  exact forall_congr' fun _ ↦ imp_congr_right fun _ ↦
    keeps_iff_safe (started_after start before) event

/-- A paused sweep of the cache, and seven operations that run. -/
def pausedSweep : List (Nat × Request) :=
  [(0, .begin (ascii "sweep") [] [] 0 .records 0), (1, .pause (ascii "sweep") [] 60)] ++
    (["a", "b", "c", "d", "e", "f", "g"].map fun name ↦ (1, .begin (ascii name) [] [] 0 .none 0))

theorem paused_record_is_displaced : ¬∀ before event rest,
      pausedSweep ++ [(1, .begin (ascii "h") [] [] 0 .none 0)] = before ++ event :: rest →
        (timedAfter 0 before).Keeps event := by
  intro hkeeps
  have hbefore : ((timedAfter 0 pausedSweep).registry.recordOf (ascii "sweep")).isSome = true := by
    decide +kernel
  have hpaused : ∀ record ∈ (timedAfter 0 pausedSweep).registry.recordOf (ascii "sweep"),
      Unfinished record.job := by
    decide +kernel
  have hafter : ((timedAfter 0 pausedSweep).registry.begin (ascii "h") [] [] 0 .none 0
      ((timedAfter 0 pausedSweep).now + 1)).1.recordOf (ascii "sweep") = none := by
    decide +kernel
  obtain ⟨record, hrecord⟩ := isSome_iff_exists.mp hbefore
  have hspared := (hkeeps pausedSweep _ [] rfl).2.spares (ascii "sweep") (by decide) record hrecord
    (hpaused record hrecord)
  rw [hafter] at hspared
  cases hspared

end DhcpServer.Core.JobRegistry
