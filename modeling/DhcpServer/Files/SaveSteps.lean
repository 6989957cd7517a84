import DhcpServer.Files.SaveMoves
import DhcpServer.Files.UploadIntegrity

/-!
# What a step does to a save on its way

Between its look at the modification time and its last call a save relies on the file and on the part.
The steps of others keep what it relies on, unless they publish before it has opened the part or write to
the part afterwards.
-/

namespace DhcpServer.Files.TextSaves

open Library Function
open Uploads (Content Disk Handle Phase Request marks stopped)

section Way

/-- The file is absent, or this is its modification time. -/
def Unchanged (state : State) (mtime : Nat) : Prop :=
  ∀ version, state.current = some version → version.mtime = mtime

/-- What a save that has found no conflict relies on: before it opens the part on the file alone, from
there on that the part, if it is still there, is its own. -/
def Way (state : State) (request length mtime : Nat) : Phase → Prop
  | .waiting => Unchanged state mtime
  | .accepted range => range.offset = 0 ∧ range.chunk = length ∧ Unchanged state mtime
  | .writing range handle sent =>
    range.chunk = length ∧ handle.position = sent ∧ ∀ file, state.uploads.disk.part = some file →
      file = handle.file ∧ state.uploads.disk.files file = marks request 0 sent ∧ Unchanged state mtime
  | .committing => ∀ file, state.uploads.disk.part = some file →
    state.uploads.disk.files file = marks request 0 length ∧ Unchanged state mtime
  | .publishing => ∀ file, state.uploads.disk.part = some file →
    state.uploads.disk.files file = marks request 0 length ∧
      ∀ version, state.found request = some version → version.mtime = mtime
  | _ => True

def beforeOpen : Phase → Bool
  | .waiting | .accepted _ => true
  | _ => false

/-- A save between the opening and the publishing of the part. -/
def holdsPart : Phase → Bool
  | .writing _ _ _ | .committing | .publishing => true
  | _ => false

variable {state state' : State} {request length mtime : Nat} {phase : Phase}

theorem Unchanged.of_current
    (hcurrent : ∀ version, state'.current = some version → state.current = some version)
    (hunchanged : Unchanged state mtime) : Unchanged state' mtime :=
  fun version hversion ↦ hunchanged version (hcurrent version hversion)

theorem Way.frame (hway : Way state request length mtime phase)
    (hfound : state'.found request = state.found request)
    (hbefore : beforeOpen phase → ∀ version, state'.current = some version →
      state.current = some version)
    (hholds : holdsPart phase → ∀ file, state'.uploads.disk.part = some file →
      state.uploads.disk.part = some file ∧ state'.uploads.disk.files file = state.uploads.disk.files file ∧
        ∀ version, state'.current = some version → state.current = some version) :
    Way state' request length mtime phase := by
  cases phase with
  | waiting => exact Unchanged.of_current (hbefore rfl) hway
  | accepted range =>
    obtain ⟨hoffset, hchunk, hunchanged⟩ := hway
    exact ⟨hoffset, hchunk, hunchanged.of_current (hbefore rfl)⟩
  | writing range handle sent =>
    obtain ⟨hchunk, hposition, hmine⟩ := hway
    refine ⟨hchunk, hposition, fun file hpart ↦ ?_⟩
    obtain ⟨hpart', hfiles, hcurrent⟩ := hholds rfl file hpart
    obtain ⟨hfile, hcontent, hunchanged⟩ := hmine file hpart'
    exact ⟨hfile, hfiles.trans hcontent, hunchanged.of_current hcurrent⟩
  | committing =>
    intro file hpart
    obtain ⟨hpart', hfiles, hcurrent⟩ := hholds rfl file hpart
    obtain ⟨hcontent, hunchanged⟩ := hway file hpart'
    exact ⟨hfiles.trans hcontent, hunchanged.of_current hcurrent⟩
  | publishing =>
    intro file hpart
    obtain ⟨hpart', hfiles, -⟩ := hholds rfl file hpart
    obtain ⟨hcontent, hreplaced⟩ := hway file hpart'
    exact ⟨hfiles.trans hcontent, hfound ▸ hreplaced⟩
  | _ => trivial

theorem publishedBy_eq_some {event : Uploads.Event} {file : Nat} :
    state.publishedBy event = some file ↔ ∃ request, event = .publish request false ∧
      state.uploads.phases request = .publishing ∧ state.uploads.disk.final = none ∧
      state.uploads.disk.part = some file := by
  unfold State.publishedBy
  constructor
  · intro hpublished
    split at hpublished
    case h_2 => cases hpublished
    rename_i request
    split_ifs at hpublished with hready
    exact ⟨request, rfl, hready.1, hready.2, hpublished⟩
  · rintro ⟨request, rfl, hphase, hfinal, hpart⟩
    simp [hphase, hfinal, hpart]

theorem follow_of_none {event : Uploads.Event} (hnone : state.publishedBy event = none) (given : Nat) :
    (state.follow event given).mtimes = state.mtimes ∧
      (state.follow event given).versions = state.versions ∧
      (state.follow event given).commits = state.commits := by
  unfold State.follow
  split
  · exact ⟨rfl, rfl, rfl⟩
  · rw [hnone]
    exact ⟨rfl, rfl, rfl⟩
  · exact ⟨rfl, rfl, rfl⟩

theorem found_follow_of_ne {event : Uploads.Event} (hother : actor event ≠ some request) (given : Nat) :
    (state.follow event given).found request = state.found request := by
  unfold State.follow
  split
  · exact update_of_ne (fun hsame ↦ hother (congrArg some hsame.symm)) _ _
  · split <;> rfl
  · rfl

variable {requests : Nat → Request} {event : Uploads.Event} {uploads : Uploads.State}

theorem current_of_effect (heffect : Effect requests state.uploads event uploads)
    (hnone : state.publishedBy event = none) (given : Nat) (version : Version)
    (hversion : ({ state.follow event given with uploads } : State).current = some version) :
    state.current = some version := by
  have hmtimes := (follow_of_none hnone given).1
  unfold State.current at hversion ⊢
  rw [hmtimes] at hversion
  rcases heffect.final_of_step with hsame | hgone | ⟨publisher, file, hevent, hphase, hfinal, hpart, -⟩
  · rwa [hsame] at hversion
  · rw [hgone] at hversion
    cases hversion
  · have hsome := publishedBy_eq_some.mpr ⟨publisher, hevent, hphase, hfinal, hpart⟩
    rw [hnone] at hsome
    cases hsome

theorem Way.of_other (hway : Way state request length mtime phase)
    (heffect : Effect requests state.uploads event uploads) (hother : actor event ≠ some request)
    (hpublish : beforeOpen phase → state.publishedBy event = none)
    (hwrite : holdsPart phase → writesPart event = false) (given : Nat) :
    Way { state.follow event given with uploads } request length mtime phase := by
  refine hway.frame (found_follow_of_ne hother given) (fun hbefore version hversion ↦ ?_) ?_
  · exact current_of_effect heffect (hpublish hbefore) given version hversion
  · intro hholds file hpart
    obtain ⟨hparts, hfiles⟩ := heffect.part_of_quiet (hwrite hholds)
    have hkept : uploads.disk.part = state.uploads.disk.part := by
      rcases hparts with hsame | hgone
      · exact hsame
      · exact absurd (hgone.symm.trans hpart) (by simp)
    refine ⟨hkept.symm.trans hpart, congrFun hfiles file, fun version hversion ↦ ?_⟩
    -- a publish would have taken the part
    have hnone : state.publishedBy event = none := by
      by_contra hsome
      obtain ⟨taken, htaken⟩ := Option.ne_none_iff_exists'.mp hsome
      obtain ⟨publisher, rfl, hphase, hfinal, htaken⟩ := publishedBy_eq_some.mp htaken
      cases heffect with
      | published => cases hpart
      | unpublished _ hnot => simp [htaken, hfinal] at hnot
    exact current_of_effect heffect hnone given version hversion

end Way

section Own

variable {works : Nat → Work} {state : State} {request : Nat} {body : Bytes}

/-- A save that carries the modification time of a version. -/
structure Carries (body : Bytes) (save : Save) (mtime : Nat) : Prop where
  parse : parseSave body = .ok save
  carried : carried body = some mtime

theorem request_of_carries {save : Save} {mtime : Nat} (hcarries : Carries body save mtime)
    (hwork : works request = .save body) : (works request).request = { body := save.text } := by
  simp only [hwork, Work.request, hcarries.parse]

theorem writeAt_marks (content : Content) {request sent : Nat} (hcontent : content = marks request 0 sent)
    (count : Nat) :
    Uploads.writeAt content sent (marks request sent count) = marks request 0 (sent + count) := by
  have hend : sent = content.length := by rw [hcontent, Uploads.length_marks]
  have hwrite := Uploads.writeAt_length content (marks request sent count)
  rw [← hend, hcontent, Uploads.marks_append] at hwrite
  rw [hcontent]
  exact hwrite

theorem files_openPart (disk : Disk) {file : Nat} (hpart : (disk.openPart false).1.part = some file) :
    file = (disk.openPart false).2.file ∧ (disk.openPart false).1.files file = [] := by
  unfold Disk.openPart at hpart ⊢
  cases hold : disk.part with
  | none =>
    simp only [hold] at hpart ⊢
    cases hpart
    exact ⟨rfl, update_self _ _ _⟩
  | some part =>
    simp only [hold, Bool.false_eq_true, if_false] at hpart ⊢
    cases hpart
    exact ⟨rfl, update_self _ _ _⟩

theorem way_of_leaves {length mtime : Nat} {phase : Phase} (hleaves : phase = .done ∨ phase = .aborting) :
    Way state request length mtime phase := by
  rcases hleaves with rfl | rfl <;> trivial

variable {requests : Nat → Request} {text : Bytes} {mtime given : Nat}

variable {range : UploadRange}

theorem Way.opened (hway : Way state request text.length mtime (.accepted range)) :
    Way { state.follow (.openPart request) given with
        uploads := { state.uploads with disk := (state.uploads.disk.openPart (0 < range.offset)).1 }.setPhase
          request (.writing range (state.uploads.disk.openPart (0 < range.offset)).2 0) }
      request text.length mtime (.writing range (state.uploads.disk.openPart (0 < range.offset)).2 0) := by
  obtain ⟨hoffset, hchunk, hunchanged⟩ := hway
  have happend : decide (0 < range.offset) = false := by simp [hoffset]
  rw [happend]
  refine ⟨hchunk, ?_, fun file hpart ↦ ?_⟩
  · unfold Disk.openPart
    split <;> rfl
  · obtain ⟨hfile, hempty⟩ := files_openPart state.uploads.disk hpart
    refine ⟨hfile, hempty, hunchanged.of_current fun version hversion ↦ ?_⟩
    simpa [State.current, Uploads.State.setPhase, openPart_final, State.follow] using hversion

theorem Way.received {handle : Handle} {sent : Nat} (count : Nat)
    (hway : Way state request text.length mtime (.writing range handle sent)) :
    Way { state.follow (.receive request count) given with
        uploads := state.uploads.take request range handle sent count }
      request text.length mtime
      (.writing range (state.uploads.disk.write handle (marks request sent count)).2 (sent + count)) := by
  obtain ⟨hchunk, hposition, hmine⟩ := hway
  have hmoved : handle.position + (marks request sent count).length = sent + count := by
    rw [hposition, Uploads.length_marks]
  refine ⟨hchunk, hmoved, fun file hpart ↦ ?_⟩
  obtain ⟨rfl, hcontent, hunchanged⟩ := hmine file hpart
  have hwritten : update state.uploads.disk.files handle.file
      (Uploads.writeAt (state.uploads.disk.files handle.file) handle.position (marks request sent count))
      handle.file = marks request 0 (sent + count) := by
    rw [update_self, hposition]
    exact writeAt_marks _ hcontent count
  exact ⟨rfl, hwritten, hunchanged⟩

theorem Way.finished {handle : Handle}
    (hway : Way state request text.length mtime (.writing range handle range.chunk)) {uploads : Uploads.State}
    (hdisk : uploads.disk = state.uploads.disk) :
    Way { state.follow (.finish request) given with uploads } request text.length mtime
      (if range.completes then .committing else stopped range) := by
  obtain ⟨hchunk, -, hmine⟩ := hway
  by_cases hcompletes : range.completes
  · rw [if_pos hcompletes]
    intro file hpart
    rw [hdisk] at hpart ⊢
    obtain ⟨-, hcontent, hunchanged⟩ := hmine file hpart
    refine ⟨hchunk ▸ hcontent, hunchanged.of_current fun version hversion ↦ ?_⟩
    simpa [State.current, hdisk, State.follow] using hversion
  · rw [if_neg hcompletes]
    exact way_of_leaves (Uploads.stopped_leaves _)

theorem Way.removed {fails : Bool} (hway : Way state request text.length mtime .committing)
    {uploads : Uploads.State} (hpart : uploads.disk.part = state.uploads.disk.part)
    (hfiles : uploads.disk.files = state.uploads.disk.files) :
    Way { state.follow (.removeFinal request fails) given with uploads } request text.length mtime
      .publishing := by
  intro file hmine
  rw [hpart] at hmine
  obtain ⟨hcontent, hunchanged⟩ := hway file hmine
  rw [hfiles]
  refine ⟨hcontent, fun version hfound ↦ hunchanged version ?_⟩
  simpa [State.follow] using hfound

theorem Way.of_own {event : Uploads.Event} {uploads : Uploads.State} (given : Nat)
    (hrequest : requests request = { body := text })
    (hway : Way state request text.length mtime (state.uploads.phases request))
    (heffect : Effect requests state.uploads event uploads) (hactor : actor event = some request) :
    Way { state.follow event given with uploads } request text.length mtime (uploads.phases request) := by
  cases heffect
  case discarded => cases hactor
  all_goals
    cases hactor
    simp only [setPhase_phases_self, Uploads.State.take]
  case interrupted => exact way_of_leaves (Uploads.stopped_leaves _)
  case accepted range hphase hcheck =>
    rw [hphase] at hway
    rw [hrequest] at hcheck
    obtain ⟨hchunk, -, ⟨-, hoffset, -⟩ | ⟨htotal, -⟩⟩ := UploadRange.check_eq_ok hcheck
    · exact ⟨hoffset, hchunk, hway⟩
    · simp at htotal
  case opened range hphase =>
    rw [hphase] at hway
    exact hway.opened
  case received count range handle sent hphase =>
    rw [hphase] at hway
    exact hway.received count
  case finished range handle hphase =>
    rw [hphase] at hway
    exact hway.finished rfl
  case removed fails hphase =>
    rw [hphase] at hway
    refine hway.removed ?_ ?_ <;> cases fails <;> rfl
  all_goals trivial

end Own

end DhcpServer.Files.TextSaves
