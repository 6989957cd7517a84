import DhcpServer.Files.UploadInvariant

/-!
# The steps of an upload

Each step of an upload keeps every row in order. Most of them leave the rows alone, or change the upload's
own row only; it forgets a pause when its row does not show it any more, and is remembered when its row does.
-/

namespace DhcpServer.Files.UploadRows

open Library Core.JobRegistry List Option

section Sound

variable {state : State} (hsound : Sound state)

include hsound

section Live

variable {number : Nat} {upload : Upload} (hupload : state.uploads[number]? = some upload)
  (hlive : upload.live = true)

include hupload hlive

theorem Sound.only {other : Upload} (hother : other ∈ state.uploads) (hotherLive : other.live)
    (hid : other.id = upload.id) : other = upload := by
  obtain ⟨place, hplace⟩ := mem_iff_getElem?.mp hother
  by_cases hsame : place = number
  · rw [hsame] at hplace
    exact Option.some.inj (hplace.symm.trans hupload)
  · exact absurd hid ((hsound.clear number upload hupload hlive).uploads place other hsame hplace
      hotherLive).1

theorem Sound.touch_eq : upload.touch state.shared = state.shared := by
  have hmixed : (state.shared.registry.contains upload.id &&
      state.shared.rowFile upload.id != upload.file) = false := by
    cases hrecord : state.shared.registry.recordOf upload.id with
    | none => simp [Registry.contains, hrecord]
    | some record =>
      have hrow := hsound.rows upload (mem_of_getElem? hupload) hlive record hrecord
      simp [hrow.1]
  rw [Upload.touch, hmixed, Bool.or_false]

variable {moved : Upload}

theorem Sound.quiet {parts : File → Option Nat} (hpath : moved.path = upload.path)
    (hvolume : moved.volume = upload.volume) (hbegun : upload.begun → moved.begun)
    (hgap : upload.stage ≠ .remembering)
    (hearly : moved.live → upload.early → moved.early)
    (hfinds : moved.live → ∀ record, state.shared.registry.recordOf upload.id = some record →
      moved.stage.Finds record.job.state) :
    Sound { state with
      shared := { state.shared with parts }
      uploads := state.uploads.set number moved } := by
  have hmem := mem_of_getElem? hupload
  apply hsound.of_change hupload
  exact {
    active := .inl hlive
    path := hpath
    volume := hvolume
    others := fun _ _ _ hrecord ↦ hrecord
    rowFile := fun _ _ ↦ rfl
    once := hsound.once upload.path
    running := by
      intro record hrecord hrunning
      obtain ⟨other, hother, hid, hotherBegun⟩ := hsound.running upload.path record hrecord hrunning
      obtain rfl := hsound.only hupload hlive hother (Upload.live_of_begun hotherBegun) hid
      exact hbegun hotherBegun
    paused := by
      intro record hrecord hpaused
      rcases hsound.paused upload.path record hrecord hpaused with
        hholds | ⟨other, hother, hid, hremembering⟩ | hdrops
      · exact .inl hholds
      · obtain rfl := hsound.only hupload hlive hother (by rw [Upload.live, hremembering]) hid
        exact absurd hremembering hgap
      · exact .inr (.inr hdrops)
    remembered := .inl rfl
    resumed := fun hmovedLive hnil ↦
      (hsound.resumed upload hmem hlive hnil).imp_right fun hstill hid ↦ hearly hmovedLive (hstill hid)
    entered := fun _ ↦ .inl hlive
    rows := fun hmovedLive record hrecord ↦
      ⟨(hsound.rows upload hmem hlive record hrecord).1, hfinds hmovedLive record hrecord⟩
    own := hsound.own
    apart := hsound.apart }

theorem Sound.work {shared : Shared} (hpath : moved.path = upload.path)
    (hvolume : moved.volume = upload.volume) (hworking : upload.stage.working)
    (hworking' : moved.stage.working)
    (hshared : ∃ parts, shared = { state.shared with parts }) :
    Sound { state with shared, uploads := state.uploads.set number moved } := by
  obtain ⟨parts, rfl⟩ := hshared
  obtain ⟨-, hlate, hgap⟩ := Upload.begun_of_working hworking
  refine hsound.quiet hupload hlive hpath hvolume (fun _ ↦ (Upload.begun_of_working hworking').1) hgap
    (by simp [hlate]) fun _ record hrecord ↦ ?_
  have hfinds := (hsound.rows upload (mem_of_getElem? hupload) hlive record hrecord).2
  rw [Stage.finds_of_working hworking] at hfinds
  exact (Stage.finds_of_working hworking' _).mpr hfinds

theorem Sound.begin (hstage : upload.stage = .beginning) (now : Nat) : Sound { state with
      shared := upload.beginRow state.shared now
      uploads := state.uploads.set number (upload.go .forgetting) } := by
  have hmem := mem_of_getElem? hupload
  rw [Upload.beginRow]
  cases hslot : state.shared.registry.slotFor upload.id now with
  | none =>
    simp only [Registry.begin_of_slotFor_none hslot]
    refine hsound.quiet hupload hlive rfl rfl (fun _ ↦ rfl) (by simp [hstage]) (fun _ _ ↦ rfl) ?_
    intro _ record hrecord
    have hnone : state.shared.registry.recordOf upload.id = none := by
      rw [Registry.slotFor, or_eq_none_iff, or_eq_none_iff] at hslot
      rw [Registry.recordOf, hslot.1.1, bind_none]
    rw [hnone] at hrecord
    cases hrecord
  | some slot =>
    have hbegin : (state.shared.registry.begin upload.id (ascii "jobs.upload") upload.path
          (UInt32.ofNat upload.range.total) .bytes 0 now).2 = true ∧
        (state.shared.registry.begin upload.id (ascii "jobs.upload") upload.path
          (UInt32.ofNat upload.range.total) .bytes 0 now).1.recordOf upload.id = some _ :=
      Registry.begin_of_slotFor (uploadJobId_ne_nil upload.path) hslot
    simp only [hbegin.1, if_true, hsound.touch_eq hupload hlive]
    apply hsound.of_change hupload
    exact {
      active := .inl hlive
      path := rfl
      volume := rfl
      others := fun _ _ hother hrecord ↦ Registry.recordOf_of_begin hother hrecord
      rowFile := fun _ hother ↦ Function.update_of_ne hother _ _
      once := by
        intro record hrecord
        obtain rfl := Option.some.inj (hbegin.2.symm.trans hrecord)
        exact ⟨rfl, .inl rfl⟩
      running := fun _ _ _ ↦ rfl
      paused := by
        intro record hrecord hpaused
        obtain rfl := Option.some.inj (hbegin.2.symm.trans hrecord)
        cases hpaused
      remembered := .inl rfl
      resumed := fun _ hnil ↦ (hsound.resumed upload hmem hlive hnil).imp_right fun _ _ ↦ rfl
      entered := fun _ ↦ .inl hlive
      rows := by
        intro _ record hrecord
        obtain rfl := Option.some.inj (hbegin.2.symm.trans hrecord)
        exact ⟨Function.update_self _ _ _, rfl⟩
      own := hsound.own
      apart := hsound.apart }

/-- The record of a pause of this upload goes, once its row does not show the pause any more. -/
theorem Sound.forget (hpath : moved.path = upload.path)
    (hvolume : moved.volume = upload.volume)
    (hrow : ∀ record, state.shared.registry.recordOf upload.id = some record →
      record.job.state = .running ∧ moved.begun ∧ moved.stage.Finds .running) :
    Sound { state with
      shared := { state.shared with paused := state.shared.paused.forget upload.id }
      uploads := state.uploads.set number moved } := by
  have hmem := mem_of_getElem? hupload
  apply hsound.of_change hupload
  exact {
    active := .inl hlive
    path := hpath
    volume := hvolume
    others := fun _ _ _ hrecord ↦ hrecord
    rowFile := fun _ _ ↦ rfl
    once := hsound.once upload.path
    running := fun record hrecord _ ↦ (hrow record hrecord).2.1
    paused := by
      intro record hrecord hpaused
      rw [(hrow record hrecord).1] at hpaused
      cases hpaused
    remembered := by
      rw [PausedUpload.forget]
      split_ifs with hid
      · exact .inr (.inl ⟨hid, rfl⟩)
      · exact .inl rfl
    resumed := by
      intro _ hnil
      simp only [PausedUpload.forget] at hnil ⊢
      split_ifs at hnil ⊢ with hid
      · exact absurd rfl hnil
      · exact (hsound.resumed upload hmem hlive hnil).imp_right fun _ hsame ↦ absurd hsame hid
    entered := fun _ ↦ .inl hlive
    rows := by
      intro _ record hrecord
      rw [(hrow record hrecord).1]
      exact ⟨(hsound.rows upload hmem hlive record hrecord).1, (hrow record hrecord).2.2⟩
    own := hsound.own
    apart := hsound.apart }

/-- A call for the row of the upload that keeps its record and says that it is at this state. -/
theorem Sound.report {change : Registry.Change} {jobState : JobState}
    (hpath : moved.path = upload.path) (hvolume : moved.volume = upload.volume)
    (hchange : ∀ record changed, change.apply record = some changed →
      changed.job.repeatSec = record.job.repeatSec ∧ changed.job.state = jobState)
    (hstate : jobState = .running ∧ moved.begun ∨ jobState = .paused ∧ moved.stage = .remembering)
    (hlate : upload.early = false) (hfinds : moved.live → moved.stage.Finds jobState) :
    Sound { state with
      shared := { state.shared with registry := state.shared.registry.update upload.id change }
      uploads := state.uploads.set number moved } := by
  have hmem := mem_of_getElem? hupload
  have hrecords {record : Record}
      (hrecord : (state.shared.registry.update upload.id change).recordOf upload.id = some record) :
      ∃ old, state.shared.registry.recordOf upload.id = some old ∧
        record.job.repeatSec = old.job.repeatSec ∧ record.job.state = jobState := by
    rw [Registry.recordOf_update_self, bind_eq_some_iff] at hrecord
    obtain ⟨old, hold, happly⟩ := hrecord
    exact ⟨old, hold, hchange old record happly⟩
  apply hsound.of_change hupload
  exact {
    active := .inl hlive
    path := hpath
    volume := hvolume
    others := by
      intro path record hother hrecord
      rwa [Registry.recordOf_update_of_ne hother] at hrecord
    rowFile := fun _ _ ↦ rfl
    once := by
      intro record hrecord
      obtain ⟨old, hold, hrepeat, hjobState⟩ := hrecords hrecord
      refine ⟨hrepeat.trans (hsound.once upload.path old hold).1, ?_⟩
      rcases hstate with ⟨rfl, -⟩ | ⟨rfl, -⟩
      · exact .inl hjobState
      · exact .inr hjobState
    running := by
      intro record hrecord hrunning
      obtain ⟨old, hold, -, hjobState⟩ := hrecords hrecord
      rcases hstate with ⟨-, hbegun⟩ | ⟨rfl, -⟩
      · exact hbegun
      · rw [hrunning] at hjobState
        cases hjobState
    paused := by
      intro record hrecord hpaused
      obtain ⟨old, hold, -, hjobState⟩ := hrecords hrecord
      rcases hstate with ⟨rfl, -⟩ | ⟨-, hremembering⟩
      · rw [hpaused] at hjobState
        cases hjobState
      · exact .inr (.inl hremembering)
    remembered := .inl rfl
    resumed := by
      intro _ hnil
      refine (hsound.resumed upload hmem hlive hnil).imp_right fun hearly hid ↦ ?_
      simp [hlate] at hearly
      exact absurd hid hearly
    entered := fun _ ↦ .inl hlive
    rows := by
      intro hmovedLive record hrecord
      obtain ⟨old, hold, -, hjobState⟩ := hrecords hrecord
      rw [hjobState]
      exact ⟨(hsound.rows upload hmem hlive old hold).1, hfinds hmovedLive⟩
    own := hsound.own
    apart := hsound.apart }

theorem Sound.finish {jobState : JobState} {detail : Bytes} {now : Nat}
    (hpath : moved.path = upload.path) (hvolume : moved.volume = upload.volume)
    (hlate : upload.early = false) :
    Sound { state with
      shared := { state.shared with registry := state.shared.registry.finish upload.id jobState detail now }
      uploads := state.uploads.set number moved } := by
  have hmem := mem_of_getElem? hupload
  have hnone : (state.shared.registry.finish upload.id jobState detail now).recordOf upload.id = none :=
    Registry.recordOf_finish_self fun record hrecord ↦ (hsound.once upload.path record hrecord).1
  have hgone {record : Record}
      (hrecord : (state.shared.registry.finish upload.id jobState detail now).recordOf upload.id =
        some record) : False := by
    rw [hnone] at hrecord
    cases hrecord
  apply hsound.of_change hupload
  exact {
    active := .inl hlive
    path := hpath
    volume := hvolume
    others := by
      intro path record hother hrecord
      rwa [Registry.finish, Registry.recordOf_update_of_ne hother] at hrecord
    rowFile := fun _ _ ↦ rfl
    once := fun _ hrecord ↦ (hgone hrecord).elim
    running := fun _ hrecord _ ↦ (hgone hrecord).elim
    paused := fun _ hrecord _ ↦ (hgone hrecord).elim
    remembered := .inl rfl
    resumed := by
      intro _ hnil
      refine (hsound.resumed upload hmem hlive hnil).imp_right fun hearly hid ↦ ?_
      simp [hlate] at hearly
      exact absurd hid hearly
    entered := fun _ ↦ .inl hlive
    rows := fun _ _ hrecord ↦ (hgone hrecord).elim
    own := hsound.own
    apart := hsound.apart }

theorem Sound.remember (hstage : upload.stage = .remembering) (hnil : state.shared.paused.id = []) :
    Sound { state with
      shared := { state.shared with paused := ⟨upload.id, upload.volume, upload.path⟩ }
      uploads := state.uploads.set number (upload.go .ended) } := by
  have hmem := mem_of_getElem? hupload
  have hpaused {record : Record} (hrecord : state.shared.registry.recordOf upload.id = some record) :
      state.shared.rowFile upload.id = upload.file ∧ record.job.state = .paused := by
    have hrow := hsound.rows upload hmem hlive record hrecord
    rwa [hstage] at hrow
  apply hsound.of_change hupload
  exact {
    active := .inl hlive
    path := rfl
    volume := rfl
    others := fun _ _ _ hrecord ↦ hrecord
    rowFile := fun _ _ ↦ rfl
    once := hsound.once upload.path
    running := by
      intro record hrecord hrunning
      rw [(hpaused hrecord).2] at hrunning
      cases hrunning
    paused := fun record hrecord _ ↦ .inl ⟨rfl, (hpaused hrecord).1.symm⟩
    remembered := .inr (.inr ⟨hnil, hlive, rfl⟩)
    resumed := fun hfalse ↦ by cases hfalse
    entered := fun hfalse ↦ by cases hfalse
    rows := fun hfalse ↦ by cases hfalse
    own := hsound.own
    apart := hsound.apart }

end Live

theorem Sound.accept {number : Nat} {upload : Upload} {range : UploadRange}
    (hupload : state.uploads[number]? = some upload) (hvalid : upload.file.isSome)
    (hapart : upload.Apart state) :
    Sound { state with uploads := state.uploads.set number { upload with stage := .opening, range } } := by
  obtain ⟨hothers, hdrops, hremembered⟩ := hapart
  -- the row that is there is paused, and the remembered upload is of the same file
  have hrow {record : Record} (hrecord : state.shared.registry.recordOf upload.id = some record) :
      record.job.state = .paused ∧
        state.shared.paused.Holds upload.id (state.shared.rowFile upload.id) := by
    rcases (hsound.once upload.path record hrecord).2 with hrunning | hpaused
    · obtain ⟨other, hother, hid, hbegun⟩ := hsound.running upload.path record hrecord hrunning
      exact absurd hid (hothers other hother (Upload.live_of_begun hbegun)).1
    · refine ⟨hpaused, ?_⟩
      rcases hsound.paused upload.path record hrecord hpaused with
        hholds | ⟨other, hother, hid, hremembering⟩ | ⟨stop, hstop, hid, hdrop, -⟩
      · exact hholds
      · exact absurd hid (hothers other hother (by rw [Upload.live, hremembering])).1
      · exact absurd hid (hdrops stop hstop hdrop).1
  apply hsound.of_change hupload
  exact {
    active := .inr rfl
    path := rfl
    volume := rfl
    others := fun _ _ _ hrecord ↦ hrecord
    rowFile := fun _ _ ↦ rfl
    once := hsound.once upload.path
    running := by
      intro record hrecord hrunning
      rw [(hrow hrecord).1] at hrunning
      cases hrunning
    paused := fun record hrecord _ ↦ .inl (hrow hrecord).2
    remembered := .inl rfl
    resumed := fun _ hnil ↦ ⟨hremembered hnil, fun _ ↦ rfl⟩
    entered := fun _ ↦ .inr ⟨⟨fun place other _ hother hlive ↦
      hothers other (mem_of_getElem? hother) hlive, hdrops⟩, hvalid⟩
    rows := by
      intro _ record hrecord
      obtain ⟨-, hid, hfile⟩ := hrow hrecord
      have hnil : state.shared.paused.id ≠ [] := by
        rw [hid]
        exact uploadJobId_ne_nil upload.path
      exact ⟨hfile.symm.trans ((hremembered hnil).mp hid), trivial⟩
    own := hsound.own
    apart := hsound.apart }

theorem Sound.check {number : Nat} {upload : Upload} {chance : Chance}
    (hupload : state.uploads[number]? = some upload) (hstage : upload.stage = .checking)
    (horderly : upload.stage.Orderly state chance upload) :
    Sound { state with
      shared := (upload.advance state.shared chance).1
      uploads := state.uploads.set number (upload.advance state.shared chance).2 } := by
  rw [hstage] at horderly
  rw [Upload.advance, hstage]
  cases hcheck : upload.check state.shared chance.holds with
  | none => exact hsound.dead hupload (by rw [Upload.live, hstage]) rfl
  | some range =>
    have hvalid : upload.file.isSome := by
      cases hfile : upload.file with
      | none => simp [Upload.check, hfile] at hcheck
      | some file => rfl
    exact hsound.accept hupload hvalid (horderly (by rw [hcheck]; rfl))

theorem Sound.advance {number : Nat} {upload : Upload} {chance : Chance}
    (hupload : state.uploads[number]? = some upload) (hlive : upload.live)
    (horderly : upload.stage.Orderly state chance upload) :
    Sound { state with
      shared := (upload.advance state.shared chance).1
      uploads := state.uploads.set number (upload.advance state.shared chance).2 } := by
  have hmem := mem_of_getElem? hupload
  -- the row, where it is there, shows that the upload runs
  have hrows := hsound.rows upload hmem hlive
  have htouch := hsound.touch_eq hupload hlive
  rw [Upload.advance]
  cases hstage : upload.stage with
  | checking | ended => simp [Upload.live, hstage] at hlive
  | opening =>
    have hnot : upload.begun = false := by rw [Upload.begun, hstage]
    cases chance.holds with
    | true =>
      obtain ⟨parts, hparts⟩ := Shared.setPart_eq state.shared upload.file fun size ↦
        some (if 0 < upload.range.offset then size.getD 0 else 0)
      simp only [hparts, if_true]
      exact hsound.quiet hupload hlive rfl rfl (by simp [hnot]) (by simp [hstage]) (fun _ _ ↦ rfl)
        fun _ _ _ ↦ trivial
    | false =>
      exact hsound.quiet hupload hlive rfl rfl (by simp [hnot]) (by simp [hstage])
        (fun hfalse ↦ by cases hfalse) (fun hfalse ↦ by cases hfalse)
  | beginning => exact hsound.begin hupload hlive hstage chance.now
  | forgetting =>
    refine hsound.forget hupload hlive rfl rfl fun record hrecord ↦ ?_
    have hfinds := (hrows record hrecord).2
    rw [hstage] at hfinds
    exact ⟨hfinds, rfl, rfl⟩
  | receiving left =>
    by_cases hleft : left = 0
    · simp only [if_pos hleft]
      exact hsound.work hupload hlive rfl rfl (by rw [hstage]; rfl) rfl ⟨_, rfl⟩
    by_cases hcount : chance.count = 0
    · simp only [if_neg hleft, if_pos hcount]
      exact hsound.work hupload hlive rfl rfl (by rw [hstage]; rfl) rfl ⟨_, rfl⟩
    simp only [if_neg hleft, if_neg hcount]
    cases chance.holds <;>
      exact hsound.work hupload hlive rfl rfl (by rw [hstage]; rfl) rfl (Shared.setPart_eq _ _ _)
  | looking left =>
    simp only [htouch]
    refine hsound.work hupload hlive rfl rfl (by rw [hstage]; rfl) ?_ ⟨_, rfl⟩
    rw [Upload.go]
    split_ifs <;> rfl
  | reporting left =>
    simp only [htouch]
    refine hsound.report hupload hlive rfl rfl ?_ (.inl ⟨rfl, rfl⟩) (by rw [Upload.early, hstage]) fun _ ↦ rfl
    intro record changed hchanged
    cases hchanged
    exact ⟨rfl, rfl⟩
  | judging ok =>
    dsimp only
    refine hsound.work hupload hlive rfl rfl (by rw [hstage]; rfl) ?_ ⟨_, rfl⟩
    rw [Upload.go]
    split_ifs <;> rfl
  | aborting jobState =>
    dsimp only
    split_ifs
    · exact hsound.work hupload hlive rfl rfl (by rw [hstage]; rfl) rfl (Shared.setPart_eq _ _ _)
    · exact hsound.work hupload hlive rfl rfl (by rw [hstage]; rfl) rfl ⟨_, rfl⟩
  | keeping => exact hsound.work hupload hlive rfl rfl (by rw [hstage]; rfl) rfl ⟨_, rfl⟩
  | pausing =>
    simp only [htouch]
    refine hsound.report hupload hlive rfl rfl ?_ (.inr ⟨rfl, rfl⟩) (by rw [Upload.early, hstage]) fun _ ↦ rfl
    intro record changed hchanged
    cases hchanged
    exact ⟨rfl, rfl⟩
  | remembering =>
    rw [hstage] at horderly
    exact hsound.remember hupload hlive hstage horderly
  | committing =>
    by_cases hpublish : chance.holds = true ∧ (upload.file.bind state.shared.parts).isSome = true
    · simp only [if_pos hpublish]
      exact hsound.work hupload hlive rfl rfl (by rw [hstage]; rfl) rfl (Shared.setPart_eq _ _ _)
    · simp only [if_neg hpublish]
      exact hsound.work hupload hlive rfl rfl (by rw [hstage]; rfl) rfl ⟨_, rfl⟩
  | finishing jobState =>
    simp only [htouch]
    exact hsound.finish hupload hlive rfl rfl (by rw [Upload.early, hstage])
  | forgettingDone =>
    refine hsound.forget hupload hlive rfl rfl fun record hrecord ↦ ?_
    have hfinds := (hrows record hrecord).2
    rw [hstage] at hfinds
    exact hfinds.elim

end Sound

end DhcpServer.Files.UploadRows
