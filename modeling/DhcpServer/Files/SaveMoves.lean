import DhcpServer.Files.TextSaves

/-!
# The steps, one by one

What a step needs and what it leaves, for the uploads and for the editor, once and for all invariants.
-/

namespace DhcpServer.Files.TextSaves

open Library Function
open Uploads (Content Disk Handle Phase Published Request marks stopped)

section Uploads

/-- What a step of a request does, with the phase it needs. -/
inductive Effect (requests : Nat → Request) (state : Uploads.State) : Uploads.Event → Uploads.State → Prop
  | refused {request : Nat} : state.phases request = .waiting →
      Effect requests state (.check request) (state.setPhase request .refused)
  | accepted {request : Nat} {range : UploadRange} : state.phases request = .waiting →
      UploadRange.check state.disk.partSize (requests request).offset (requests request).body.length
        ((requests request).total ≠ 0) (requests request).total = .ok range →
      Effect requests state (.check request) (state.setPhase request (.accepted range))
  | refuse {request : Nat} {range : UploadRange} : state.phases request = .accepted range →
      Effect requests state (.refuse request) (state.setPhase request .refused)
  | opened {request : Nat} {range : UploadRange} : state.phases request = .accepted range →
      Effect requests state (.openPart request)
        ({ state with disk := (state.disk.openPart (0 < range.offset)).1 }.setPhase request
          (.writing range (state.disk.openPart (0 < range.offset)).2 0))
  | received {request count : Nat} {range : UploadRange} {handle : Handle} {sent : Nat} :
      state.phases request = .writing range handle sent →
      Effect requests state (.receive request count) (state.take request range handle sent count)
  | interrupted {request count : Nat} {range : UploadRange} {handle : Handle} {sent : Nat} :
      state.phases request = .writing range handle sent →
      Effect requests state (.interrupt request count)
        ((state.take request range handle sent count).setPhase request (stopped range))
  | cancelled {request : Nat} {range : UploadRange} {handle : Handle} {sent : Nat} :
      state.phases request = .writing range handle sent →
      Effect requests state (.cancel request) (state.setPhase request .aborting)
  | finished {request : Nat} {range : UploadRange} {handle : Handle} :
      state.phases request = .writing range handle range.chunk →
      Effect requests state (.finish request)
        (state.setPhase request (if range.completes then .committing else stopped range))
  | flushFailed {request : Nat} : state.phases request = .committing →
      Effect requests state (.flushFails request) (state.setPhase request .aborting)
  | aborted {request : Nat} {fails : Bool} : state.phases request = .aborting →
      Effect requests state (.abort request fails)
        ({ state with disk := if fails then state.disk else { state.disk with part := none } }.setPhase
          request .done)
  | removed {request : Nat} {fails : Bool} : state.phases request = .committing →
      Effect requests state (.removeFinal request fails)
        ({ state with disk := if fails then state.disk else { state.disk with final := none } }.setPhase
          request .publishing)
  | published {request file : Nat} : state.phases request = .publishing → state.disk.part = some file →
      state.disk.final = none →
      Effect requests state (.publish request false)
        ({ state with
            disk := { state.disk with part := none, final := some file }
            published := state.published ++
              [Published.mk request (state.disk.files file) (state.disk.written file)]
          }.setPhase request .done)
  | unpublished {request : Nat} {fails : Bool} : state.phases request = .publishing →
      (fails = true ∨ state.disk.part = none ∨ state.disk.final ≠ none) →
      Effect requests state (.publish request fails) (state.setPhase request .aborting)
  | discarded : Effect requests state .discard { state with disk := { state.disk with part := none } }

variable {requests : Nat → Request} {state state' : Uploads.State} {event : Uploads.Event}

theorem effect_of_step (hstep : Uploads.step requests state event = some state') :
    Effect requests state event state' := by
  unfold Uploads.step at hstep
  cases event with
  | check request =>
    dsimp only at hstep
    split at hstep
    case h_2 => cases hstep
    rename_i hphase
    split at hstep <;> cases hstep
    · exact .refused hphase
    · rename_i range hcheck
      exact .accepted hphase hcheck
  | refuse request =>
    dsimp only at hstep
    split at hstep
    case h_2 => cases hstep
    rename_i range hphase
    cases hstep
    exact .refuse hphase
  | openPart request =>
    dsimp only at hstep
    split at hstep
    case h_2 => cases hstep
    rename_i range hphase
    cases hstep
    exact .opened hphase
  | receive request count =>
    dsimp only at hstep
    split at hstep
    case h_2 => cases hstep
    rename_i range handle sent hphase
    split at hstep
    case isFalse => cases hstep
    cases hstep
    exact .received hphase
  | interrupt request count =>
    dsimp only at hstep
    split at hstep
    case h_2 => cases hstep
    rename_i range handle sent hphase
    split at hstep
    case isFalse => cases hstep
    cases hstep
    exact .interrupted hphase
  | cancel request =>
    dsimp only at hstep
    split at hstep
    case h_2 => cases hstep
    rename_i range handle sent hphase
    cases hstep
    exact .cancelled hphase
  | finish request =>
    dsimp only at hstep
    split at hstep
    case h_2 => cases hstep
    rename_i range handle sent hphase
    split at hstep
    case isFalse => cases hstep
    rename_i hchunk
    cases hstep
    exact .finished (hchunk ▸ hphase)
  | flushFails request =>
    dsimp only at hstep
    split at hstep
    case h_2 => cases hstep
    rename_i hphase
    cases hstep
    exact .flushFailed hphase
  | abort request fails =>
    dsimp only at hstep
    split at hstep
    case h_2 => cases hstep
    rename_i hphase
    cases hstep
    exact .aborted hphase
  | removeFinal request fails =>
    dsimp only at hstep
    split at hstep
    case h_2 => cases hstep
    rename_i hphase
    cases hstep
    exact .removed hphase
  | publish request fails =>
    dsimp only at hstep
    split at hstep
    case h_2 => cases hstep
    rename_i hphase
    split at hstep
    · rename_i file hpart hfinal
      cases fails with
      | true =>
        cases hstep
        exact .unpublished hphase (.inl rfl)
      | false =>
        cases hstep
        exact .published hphase hpart hfinal
    · rename_i hnames
      cases hstep
      refine .unpublished hphase (.inr ?_)
      by_contra hboth
      rw [not_or, not_not] at hboth
      obtain ⟨file, hpart⟩ := Option.ne_none_iff_exists'.mp hboth.1
      exact hnames file hpart hboth.2
  | discard =>
    cases hstep
    exact .discarded

theorem setPhase_phases_of_ne {request other : Nat} (hother : some request ≠ some other) (phase : Phase) :
    (state.setPhase request phase).phases other = state.phases other :=
  update_of_ne (fun hsame ↦ hother (congrArg some hsame.symm)) _ _

theorem setPhase_phases_self (request : Nat) (phase : Phase) :
    (state.setPhase request phase).phases request = phase :=
  update_self _ _ _

theorem Effect.phases_of_ne (heffect : Effect requests state event state') {other : Nat}
    (hother : actor event ≠ some other) : state'.phases other = state.phases other := by
  cases heffect with
  | interrupted _ =>
    rw [setPhase_phases_of_ne hother]
    exact setPhase_phases_of_ne hother _
  | discarded => rfl
  | _ => exact setPhase_phases_of_ne hother _

def writesPart : Uploads.Event → Bool
  | .openPart _ | .receive _ _ | .interrupt _ _ => true
  | _ => false

theorem Effect.part_of_quiet (heffect : Effect requests state event state')
    (hquiet : writesPart event = false) :
    (state'.disk.part = state.disk.part ∨ state'.disk.part = none) ∧
      state'.disk.files = state.disk.files := by
  cases heffect with
  | opened | received | interrupted => cases hquiet
  | aborted => grind [Uploads.State.setPhase]
  | removed => grind [Uploads.State.setPhase]
  | published | discarded => exact ⟨.inr rfl, rfl⟩
  | _ => exact ⟨.inl rfl, rfl⟩

theorem openPart_final (disk : Disk) (append : Bool) : (disk.openPart append).1.final = disk.final := by
  unfold Disk.openPart
  split
  · split <;> rfl
  · rfl

theorem Effect.final_of_step (heffect : Effect requests state event state') :
    state'.disk.final = state.disk.final ∨ state'.disk.final = none ∨
      ∃ request file, event = .publish request false ∧ state.phases request = .publishing ∧
        state.disk.final = none ∧ state.disk.part = some file ∧ state'.disk.final = some file ∧
        state'.disk.part = none := by
  cases heffect with
  | opened => exact .inl (openPart_final _ _)
  | aborted => grind [Uploads.State.setPhase]
  | removed => grind [Uploads.State.setPhase]
  | @published request file hphase hpart hfinal =>
    exact .inr (.inr ⟨request, file, rfl, hphase, hfinal, hpart, rfl, rfl⟩)
  | _ => exact .inl rfl

end Uploads

section Moves

variable (works : Nat → Work) (state : State)

inductive Ends (request : Nat) : Answer → Prop
  | outOfPlace : state.uploads.phases request = .refused → Ends request (.failed .conflict)
  | failed : state.uploads.phases request = .done → state.commits request = none →
      Ends request (.failed .ioError)
  | saved (size after : Nat) : state.uploads.phases request = .done → state.commits request ≠ none →
      Ends request (.saved size after)

inductive Move : Event → State → Prop
  | read : Move .read { state with reads := state.reads ++ state.current.toList }
  | misread {request : Nat} {body : Bytes} {fails : Bool} {answer : Answer} :
      works request = .save body → state.passed request = false → state.answers request = none →
      parseSave body = .error answer → Move (.save request fails) (state.setAnswer request answer)
  | conflict {request : Nat} {body : Bytes} {fails : Bool} :
      works request = .save body → state.passed request = false → state.answers request = none →
      Move (.save request fails) (state.setAnswer request (.failed .conflict))
  | passed {request : Nat} {body : Bytes} {fails : Bool} {save : Save} {version : Version} :
      works request = .save body → state.passed request = false → state.answers request = none →
      parseSave body = .ok save → version ∈ state.reads → carried body = some version.mtime →
      (fails = false → ∀ info, state.current = some info →
        save.clientMtime < 0 ∨ save.clientMtime = info.mtime) →
      Move (.save request fails) { state with passed := update state.passed request true }
  | refused {request : Nat} {body : Bytes} {status : FileStatus} :
      works request = .save body → state.passed request = true → state.answers request = none →
      (state.uploads.phases request).opened = false →
      Move (.refuse request status)
        ({ state with uploads := state.uploads.setPhase request .refused }.setAnswer request
          (.failed status))
  | acted {event : Uploads.Event} {mtime : Nat} {uploads : Uploads.State} :
      mayAct works state event = true → isFresh state event mtime = true →
      Effect (fun request ↦ (works request).request) state.uploads event uploads →
      Move (.act event mtime) { state.follow event mtime with uploads }
  | answered {request : Nat} {body : Bytes} {fails : Bool} {answer : Answer} :
      works request = .save body → state.answers request = none → Ends state request answer →
      Move (.answer request fails) (state.setAnswer request answer)

variable {works state} {state' : State} {event : Event}

theorem move_of_step (hstep : Step works state event state') : Move works state event state' := by
  unfold Step step at hstep
  cases event with
  | read =>
    cases hstep
    exact .read
  | save request fails =>
    dsimp only at hstep
    split at hstep
    case h_1 => cases hstep
    rename_i body hwork
    split at hstep
    case isTrue => cases hstep
    rename_i hidle
    obtain ⟨hpassed, hanswers⟩ : state.passed request = false ∧ state.answers request = none := by
      simpa using hidle
    split at hstep
    · rename_i answer hparse
      cases hstep
      exact .misread hwork hpassed hanswers hparse
    · rename_i save hparse
      split at hstep
      case isFalse => cases hstep
      rename_i hread
      obtain ⟨version, hmem, hcarried⟩ :
          ∃ version ∈ state.reads, carried body = some version.mtime := by
        simpa using hread
      split at hstep
      · rename_i hnone
        cases hstep
        refine .passed hwork hpassed hanswers hparse hmem hcarried fun hfails info hinfo ↦ ?_
        simp [hfails, hinfo] at hnone
      · rename_i info hinfo
        split at hstep
        · cases hstep
          exact .conflict hwork hpassed hanswers
        · rename_i hsame
          cases hstep
          refine .passed hwork hpassed hanswers hparse hmem hcarried fun hfails info' hinfo' ↦ ?_
          obtain rfl : info' = info := by simpa [hfails, hinfo'] using hinfo
          omega
  | refuse request status =>
    dsimp only at hstep
    split at hstep
    case h_1 => cases hstep
    rename_i body hwork
    split at hstep
    case h_3 => cases hstep
    all_goals
      rename_i hphase
      split at hstep
      case isFalse => cases hstep
      rename_i hready
      cases hstep
      have hready' : (state.passed request = true ∧ state.answers request = none) ∧ ¬status = .ok := by
        simpa using hready
      exact .refused hwork hready'.1.1 hready'.1.2 (by rw [hphase]; rfl)
  | act event mtime =>
    dsimp only at hstep
    split at hstep
    case isFalse => cases hstep
    rename_i hmay
    rw [Bool.and_eq_true] at hmay
    obtain ⟨uploads, huploads, rfl⟩ := Option.map_eq_some_iff.mp hstep
    exact .acted hmay.1 hmay.2 (effect_of_step huploads)
  | answer request fails =>
    dsimp only at hstep
    split at hstep
    case h_1 => cases hstep
    rename_i body hwork
    split at hstep
    case isTrue => cases hstep
    rename_i hanswers
    replace hanswers : state.answers request = none := by simpa using hanswers
    split at hstep
    case h_3 => cases hstep
    · rename_i hphase
      cases hstep
      exact .answered hwork hanswers (.outOfPlace hphase)
    · rename_i hphase
      split at hstep <;> cases hstep
      · rename_i hcommits
        exact .answered hwork hanswers (.failed hphase hcommits)
      · rename_i hcommits
        exact .answered hwork hanswers (.saved _ _ hphase hcommits)

end Moves

end DhcpServer.Files.TextSaves
