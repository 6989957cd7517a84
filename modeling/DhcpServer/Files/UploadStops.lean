import DhcpServer.Files.UploadSteps

/-!
# A stop drops the upload of its row

The steps of the stops keep every row in order, too. So in every run of orderly steps a paused upload can be
dropped, and a stop that drops one removes its part and its row and no other.
-/

namespace DhcpServer.Files.UploadRows

open Library Core.JobRegistry List

/-! ## A step of a stop -/

section Advance

variable {shared : Shared} {uploads : List Upload} {stop : Stop} {chance : Chance}

theorem Stop.advance_requesting (hstage : stop.stage = .requesting)
    (hgranted : (shared.registry.requestCancel stop.id).2) :
    stop.advance shared uploads chance =
      ({ shared with registry := (shared.registry.requestCancel stop.id).1 },
        { stop with stage := .taking, target := shared.rowFile stop.id }) := by
  simp only [Stop.advance, hstage, hgranted, if_true]

theorem Stop.advance_taking (hstage : stop.stage = .taking) (hnil : shared.paused.id ≠ [])
    (hid : shared.paused.id = stop.id) :
    stop.advance shared uploads chance =
      ({ shared with paused := {} },
        { stop with stage := .discarding shared.paused.volume shared.paused.path, took := true }) := by
  have hnot : ¬(shared.paused.id = [] ∨ shared.paused.id ≠ stop.id) := by
    rw [not_or, not_not]
    exact ⟨hnil, hid⟩
  simp only [Stop.advance, hstage, if_neg hnot]

theorem Stop.advance_discarding {volume path : Bytes} {file : File}
    (hstage : stop.stage = .discarding volume path) (hfile : fileOf volume path = some file)
    (hholds : chance.holds) :
    ∃ left moved, stop.advance shared uploads chance = (left, moved) ∧ left.registry = shared.registry ∧
      left.parts file = none ∧ moved.id = stop.id ∧ moved.stage = .finishing path := by
  rw [Stop.advance, hstage]
  refine ⟨_, _, rfl, ?_⟩
  simp [hfile, hholds, Shared.setPart]

theorem Stop.advance_finishing {path : Bytes} (hstage : stop.stage = .finishing path) :
    ∃ moved, stop.advance shared uploads chance =
      ({ shared with registry := shared.registry.finish stop.id .cancelled path chance.now }, moved) := by
  rw [Stop.advance, hstage]
  exact ⟨_, rfl⟩

end Advance

section Sound

variable {state : State} (hsound : Sound state)

include hsound

/-- A step of the others that leaves the uploads alone. Rows stay, with the state they show, or go. -/
theorem Sound.others {registry : Registry} {paused : PausedUpload} {parts : File → Option Nat}
    {stray : Bool} {stops : List Stop}
    (hrows : ∀ path record, registry.recordOf (uploadJobId path) = some record →
      ∃ old, state.shared.registry.recordOf (uploadJobId path) = some old ∧
        record.job.repeatSec = old.job.repeatSec ∧ record.job.state = old.job.state)
    (hpaused : paused = state.shared.paused ∨ paused = {})
    (hshown : ∀ path record, registry.recordOf (uploadJobId path) = some record →
      state.shared.paused.Holds (uploadJobId path) (state.shared.rowFile (uploadJobId path)) ∨
        (∃ stop ∈ state.stops, stop.id = uploadJobId path ∧ stop.drops ∧
          stop.target = state.shared.rowFile (uploadJobId path)) →
      paused.Holds (uploadJobId path) (state.shared.rowFile (uploadJobId path)) ∨
        ∃ stop ∈ stops, stop.id = uploadJobId path ∧ stop.drops ∧
          stop.target = state.shared.rowFile (uploadJobId path))
    (hclear : ∀ stop ∈ stops, stop.drops → ∀ upload ∈ state.uploads, upload.live →
      stop.id ≠ upload.id ∧ stop.target ≠ upload.file)
    (haims : ∀ stop ∈ stops, ∀ volume path, stop.stage = .discarding volume path →
      stop.target = fileOf volume path)
    (hids : ∀ stop ∈ stops, ∃ path, stop.id = uploadJobId path)
    (hhonest : ∀ stop ∈ stops, stop.Honest) (hstray : stray = false) :
    Sound { state with shared := { state.shared with registry, paused, parts, stray }, stops } where
  once path record hrecord := by
    obtain ⟨old, hold, hrepeat, hjobState⟩ := hrows path record hrecord
    have honce := hsound.once path old hold
    rw [Registry.Unfinished, hrepeat, hjobState]
    exact honce
  running path record hrecord hrunning := by
    obtain ⟨old, hold, -, hjobState⟩ := hrows path record hrecord
    exact hsound.running path old hold (hjobState.symm.trans hrunning)
  paused path record hrecord hshows := by
    obtain ⟨old, hold, -, hjobState⟩ := hrows path record hrecord
    have hbefore := hsound.paused path old hold (hjobState.symm.trans hshows)
    rw [or_left_comm] at hbefore ⊢
    exact hbefore.imp_right (hshown path record hrecord)
  remembered hnil := by
    rcases hpaused with rfl | rfl
    · exact hsound.remembered hnil
    · exact absurd rfl hnil
  clear number upload hupload hlive :=
    ⟨(hsound.clear number upload hupload hlive).uploads,
      fun stop hstop hdrops ↦ hclear stop hstop hdrops upload (mem_of_getElem? hupload) hlive⟩
  resumed upload hupload hlive hnil := by
    rcases hpaused with rfl | rfl
    · exact hsound.resumed upload hupload hlive hnil
    · exact absurd rfl hnil
  valid := hsound.valid
  rows upload hupload hlive record hrecord := by
    obtain ⟨old, hold, -, hjobState⟩ := hrows upload.path record hrecord
    rw [hjobState]
    exact hsound.rows upload hupload hlive old hold
  aims := haims
  ids := hids
  honest := hhonest
  own := hstray
  apart := hsound.apart

theorem Sound.call {call : Call} (hcall : ¬uploadPrefix <+: call.id) :
    Sound { state with shared := { state.shared with registry := call.apply state.shared.registry } } := by
  refine hsound.others ?_ (.inl rfl) (fun _ _ _ hshown ↦ hshown) ?_ hsound.aims hsound.ids hsound.honest
    hsound.own
  · intro path record hrecord
    have hid : uploadJobId path ≠ call.id := fun hsame ↦ hcall (hsame ▸ prefix_append uploadPrefix path)
    exact ⟨record, recordOf_of_apply hid hrecord, rfl, rfl⟩
  · intro stop hstop hdrops upload hupload hlive
    obtain ⟨number, hnumber⟩ := mem_iff_getElem?.mp hupload
    exact (hsound.clear number upload hnumber hlive).stops stop hstop hdrops

theorem Sound.stop (path : Bytes) {stage : StopStage} (hstage : stage = .requesting ∨ stage = .ended) :
    Sound { state with stops := state.stops ++ [{ id := uploadJobId path, stage }] } := by
  have hidle : Stop.drops { id := uploadJobId path, stage } = false := by
    rcases hstage with rfl | rfl <;> rfl
  have hhonest : Stop.Honest { id := uploadJobId path, stage } := by
    rcases hstage with rfl | rfl
    · exact rfl
    · exact fun htook ↦ Bool.noConfusion htook
  refine hsound.others (fun _ record hrecord ↦ ⟨record, hrecord, rfl, rfl⟩) (.inl rfl) ?_ ?_ ?_ ?_ ?_
    hsound.own
  · rintro other record - (hholds | ⟨stop, hstop, hdrops⟩)
    · exact .inl hholds
    · exact .inr ⟨stop, mem_append_left _ hstop, hdrops⟩
  · intro stop hstop hdrops upload hupload hlive
    rcases mem_append.mp hstop with hold | hnew
    · obtain ⟨number, hnumber⟩ := mem_iff_getElem?.mp hupload
      exact (hsound.clear number upload hnumber hlive).stops stop hold hdrops
    · rw [mem_singleton.mp hnew, hidle] at hdrops
      cases hdrops
  · intro stop hstop volume aim haim
    rcases mem_append.mp hstop with hold | hnew
    · exact hsound.aims stop hold volume aim haim
    · rw [mem_singleton.mp hnew] at haim
      rcases hstage with rfl | rfl <;> cases haim
  · intro stop hstop
    rcases mem_append.mp hstop with hold | hnew
    · exact hsound.ids stop hold
    · exact ⟨path, by rw [mem_singleton.mp hnew]⟩
  · intro stop hstop
    rcases mem_append.mp hstop with hold | hnew
    · exact hsound.honest stop hold
    · rwa [mem_singleton.mp hnew]

variable {number : Nat}

theorem Sound.stop_moved {stop moved : Stop} {registry : Registry} {paused : PausedUpload}
    {parts : File → Option Nat} {stray : Bool} (hstop : state.stops[number]? = some stop)
    (hrows : ∀ path record, registry.recordOf (uploadJobId path) = some record →
      ∃ old, state.shared.registry.recordOf (uploadJobId path) = some old ∧
        record.job.repeatSec = old.job.repeatSec ∧ record.job.state = old.job.state)
    (hid : moved.id = stop.id)
    (hpaused : paused = state.shared.paused ∨ paused = {} ∧ moved.drops ∧
      state.shared.paused.Holds stop.id moved.target)
    (hkept : stop.drops →
      moved.drops ∧ moved.target = stop.target ∨ registry.recordOf stop.id = none)
    (hclear : moved.drops → ∀ upload ∈ state.uploads, upload.live →
      stop.id ≠ upload.id ∧ moved.target ≠ upload.file)
    (haims : ∀ volume path, moved.stage = .discarding volume path → moved.target = fileOf volume path)
    (hhonest : moved.Honest) (hstray : stray = false) :
    Sound { state with
      shared := { state.shared with registry, paused, parts, stray }
      stops := state.stops.set number moved } := by
  have hmoved : moved ∈ state.stops.set number moved := mem_set (List.getElem?_eq_some_iff.mp hstop).1 _
  refine hsound.others hrows (hpaused.imp_right And.left) ?_ ?_ ?_ ?_ ?_ hstray
  · rintro path record hrecord (hholds | ⟨other, hother, hotherId, hdrops, htarget⟩)
    · rcases hpaused with rfl | ⟨-, hmovedDrops, htaken⟩
      · exact .inl hholds
      · exact .inr ⟨moved, hmoved, (hid.trans htaken.1.symm).trans hholds.1, hmovedDrops,
          htaken.2.symm.trans hholds.2⟩
    · rcases mem_set_or_eq hstop hother with hkeeps | rfl
      · exact .inr ⟨other, hkeeps, hotherId, hdrops, htarget⟩
      · rcases hkept hdrops with ⟨hmovedDrops, hsame⟩ | hnone
        · exact .inr ⟨moved, hmoved, hid.trans hotherId, hmovedDrops, hsame.trans htarget⟩
        · rw [hotherId, hrecord] at hnone
          cases hnone
  · intro other hother hdrops upload hupload hlive
    rcases mem_or_eq_of_mem_set hother with hold | rfl
    · obtain ⟨place, hplace⟩ := mem_iff_getElem?.mp hupload
      exact (hsound.clear place upload hplace hlive).stops other hold hdrops
    · rw [hid]
      exact hclear hdrops upload hupload hlive
  · intro other hother
    rcases mem_or_eq_of_mem_set hother with hold | rfl
    · exact hsound.aims other hold
    · exact haims
  · intro other hother
    rcases mem_or_eq_of_mem_set hother with hold | rfl
    · exact hsound.ids other hold
    · rw [hid]
      exact hsound.ids stop (mem_of_getElem? hstop)
  · intro other hother
    rcases mem_or_eq_of_mem_set hother with hold | rfl
    · exact hsound.honest other hold
    · exact hhonest

theorem Sound.clear_of_drops {stop : Stop} (hstop : stop ∈ state.stops) (hdrops : stop.drops) :
    ∀ upload ∈ state.uploads, upload.live → stop.id ≠ upload.id ∧ stop.target ≠ upload.file := by
  intro upload hupload hlive
  obtain ⟨place, hplace⟩ := mem_iff_getElem?.mp hupload
  exact (hsound.clear place upload hplace hlive).stops stop hstop hdrops

theorem Sound.stop_over {stop : Stop} (hstop : state.stops[number]? = some stop)
    (hdrops : stop.drops = false) (htook : stop.took = false) :
    Sound { state with stops := state.stops.set number (stop.go .ended) } :=
  hsound.stop_moved hstop (fun _ record hrecord ↦ ⟨record, hrecord, rfl, rfl⟩) rfl (.inl rfl)
    (by simp [hdrops]) (fun hfalse ↦ by cases hfalse) (fun _ _ hfalse ↦ by cases hfalse)
    (fun htaken ↦ Bool.noConfusion (htook.symm.trans htaken)) hsound.own

theorem Sound.requestCancel {stop : Stop} {chance : Chance}
    (hstop : state.stops[number]? = some stop) (hstage : stop.stage = .requesting) :
    Sound { state with
      shared := (stop.advance state.shared state.uploads chance).1
      stops := state.stops.set number (stop.advance state.shared state.uploads chance).2 } := by
  have hmem := mem_of_getElem? hstop
  have hdrops : stop.drops = false := by rw [Stop.drops, hstage]
  have htook : stop.took = false := by
    have hhonest := hsound.honest stop hmem
    rwa [Stop.Honest, hstage] at hhonest
  obtain ⟨path, hid⟩ := hsound.ids stop hmem
  cases hrecord : state.shared.registry.recordOf stop.id with
  | none =>
    rw [Stop.advance, hstage]
    simp only [Registry.requestCancel_of_none hrecord]
    exact hsound.stop_over hstop hdrops htook
  | some record =>
    have hunfinished := (hsound.once path record (hid ▸ hrecord)).2
    have hasked := Registry.recordOf_requestCancel_self hrecord hunfinished
    rw [Stop.advance_requesting hstage (Registry.requestCancel_of_unfinished hrecord hunfinished)]
    refine hsound.stop_moved hstop ?_ rfl (.inl rfl) (by simp [hdrops]) (fun hfalse ↦ by cases hfalse)
      (fun _ _ hfalse ↦ by cases hfalse) htook hsound.own
    intro other changed hchanged
    by_cases hother : uploadJobId other = stop.id
    · rw [hother, hasked] at hchanged
      cases hchanged
      exact ⟨record, hother ▸ hrecord, rfl, rfl⟩
    · rw [Registry.recordOf_requestCancel_of_ne hother] at hchanged
      exact ⟨changed, hchanged, rfl, rfl⟩

theorem Sound.take {stop : Stop} {chance : Chance}
    (hstop : state.stops[number]? = some stop) (hstage : stop.stage = .taking)
    (horderly : stop.stage.Orderly state chance stop) :
    Sound { state with
      shared := (stop.advance state.shared state.uploads chance).1
      stops := state.stops.set number (stop.advance state.shared state.uploads chance).2 } := by
  have hdrops : stop.drops = false := by rw [Stop.drops, hstage]
  have htook : stop.took = false := by
    have hhonest := hsound.honest stop (mem_of_getElem? hstop)
    rwa [Stop.Honest, hstage] at hhonest
  rw [hstage] at horderly
  by_cases hother : state.shared.paused.id = [] ∨ state.shared.paused.id ≠ stop.id
  · rw [Stop.advance, hstage]
    simp only [if_pos hother]
    exact hsound.stop_over hstop hdrops htook
  · rw [not_or, not_not] at hother
    obtain ⟨hnil, hid⟩ := hother
    rw [Stop.advance_taking hstage hnil hid]
    obtain ⟨hfile, hidle⟩ := horderly hid
    refine hsound.stop_moved hstop (fun _ record hrecord ↦ ⟨record, hrecord, rfl, rfl⟩) rfl
      (.inr ⟨rfl, rfl, hid, hfile⟩) (by simp [hdrops]) ?_ ?_ trivial hsound.own
    · intro _ upload hupload hlive
      refine ⟨(hidle upload hupload hlive).symm, fun hsame ↦ hidle upload hupload hlive ?_⟩
      exact (((hsound.resumed upload hupload hlive hnil).1.mpr (hfile.trans hsame)).symm.trans hid)
    · rintro volume path ⟨⟩
      exact hfile.symm

theorem Sound.discard {stop : Stop} {chance : Chance} {volume path : Bytes}
    (hstop : state.stops[number]? = some stop) (hstage : stop.stage = .discarding volume path)
    (hholds : chance.holds) :
    Sound { state with
      shared := (stop.advance state.shared state.uploads chance).1
      stops := state.stops.set number (stop.advance state.shared state.uploads chance).2 } := by
  have hmem := mem_of_getElem? hstop
  have hdrops : stop.drops := by rw [Stop.drops, hstage]
  have hclear := hsound.clear_of_drops hmem hdrops
  have haim := hsound.aims stop hmem volume path hstage
  have hstrays : ¬stop.Strays state.shared state.uploads (fileOf volume path) := by
    rintro ⟨-, hother | ⟨upload, hupload, hwrites, hfile⟩⟩
    · exact hother haim.symm
    · exact (hclear upload hupload (Upload.live_of_writes hwrites)).2 (haim.trans hfile.symm)
  obtain ⟨parts, hparts⟩ := Shared.setPart_eq state.shared (fileOf volume path) fun _ ↦ none
  have hremoved : (stop.target.bind parts).isNone := by
    rw [haim]
    cases hfile : fileOf volume path with
    | none => rfl
    | some file =>
      simp only [Shared.setPart, hfile] at hparts
      have hgone : Function.update state.shared.parts file none = parts := congrArg Shared.parts hparts
      rw [Option.bind_some, ← hgone, Function.update_self]
      rfl
  rw [Stop.advance, hstage]
  simp only [hholds, if_true, hparts, hstrays, decide_false, Bool.and_false, Bool.or_false]
  exact hsound.stop_moved hstop (fun _ record hrecord ↦ ⟨record, hrecord, rfl, rfl⟩) rfl (.inl rfl)
    (fun _ ↦ .inl ⟨rfl, rfl⟩) (fun _ ↦ hclear) (fun _ _ hfalse ↦ by cases hfalse) hremoved hsound.own

theorem Sound.end_row {stop : Stop} {chance : Chance} {path : Bytes}
    (hstop : state.stops[number]? = some stop) (hstage : stop.stage = .finishing path) :
    Sound { state with
      shared := (stop.advance state.shared state.uploads chance).1
      stops := state.stops.set number (stop.advance state.shared state.uploads chance).2 } := by
  have hmem := mem_of_getElem? hstop
  have hremoved : stop.removed := by
    have hhonest := hsound.honest stop hmem
    rwa [Stop.Honest, hstage] at hhonest
  obtain ⟨own, hid⟩ := hsound.ids stop hmem
  have hnone : (state.shared.registry.finish stop.id .cancelled path chance.now).recordOf stop.id = none := by
    rw [hid]
    exact Registry.recordOf_finish_self fun record hrecord ↦ (hsound.once own record hrecord).1
  rw [Stop.advance, hstage]
  refine hsound.stop_moved hstop ?_ rfl (.inl rfl) (fun _ ↦ .inr hnone) (fun hfalse ↦ by cases hfalse)
    (fun _ _ hfalse ↦ by cases hfalse) ?_ hsound.own
  · intro other record hrecord
    by_cases hother : uploadJobId other = stop.id
    · rw [hother, hnone] at hrecord
      cases hrecord
    · rw [Registry.finish, Registry.recordOf_update_of_ne hother] at hrecord
      exact ⟨record, hrecord, rfl, rfl⟩
  · intro _
    exact ⟨hremoved, by simp [Registry.contains, hnone]⟩

theorem Sound.stop_advance {stop : Stop} {chance : Chance}
    (hstop : state.stops[number]? = some stop) (horderly : stop.stage.Orderly state chance stop) :
    Sound { state with
      shared := (stop.advance state.shared state.uploads chance).1
      stops := state.stops.set number (stop.advance state.shared state.uploads chance).2 } := by
  cases hstage : stop.stage with
  | requesting => exact hsound.requestCancel hstop hstage
  | taking => exact hsound.take hstop hstage horderly
  | discarding volume path =>
    rw [hstage] at horderly
    exact hsound.discard hstop hstage horderly
  | finishing path => exact hsound.end_row hstop hstage
  | ended =>
    rw [Stop.advance, hstage]
    simpa only [set_of_getElem? hstop] using hsound

end Sound

theorem sound_step {state state' : State} {event : Event} (hsound : Sound state)
    (horderly : Orderly state event) (hstep : Step state event state') : Sound state' := by
  cases event with
  | upload volume path offset total chunk =>
    cases hstep
    exact hsound.request rfl
  | uploadNext number chance =>
    simp only [Step, step] at hstep
    split at hstep
    · cases hstep
    · rename_i upload hupload
      cases hstep
      cases hlive : upload.live with
      | true => exact hsound.advance hupload hlive (horderly upload hupload)
      | false =>
        cases hstage : upload.stage with
        | checking => exact hsound.check hupload hstage (horderly upload hupload)
        | ended =>
          rw [Upload.advance, hstage]
          exact hsound.dead hupload hlive hlive
        | _ => simp [Upload.live, hstage] at hlive
  | stop path =>
    cases hstep
    apply hsound.stop
    split_ifs
    · exact .inl rfl
    · exact .inr rfl
  | stopNext number chance =>
    simp only [Step, step] at hstep
    split at hstep
    · cases hstep
    · rename_i stop hstop
      cases hstep
      exact hsound.stop_advance hstop (horderly stop hstop)
  | call call =>
    simp only [Step, step] at hstep
    split_ifs at hstep with hcall
    cases hstep
    exact hsound.call hcall

theorem step_last {shared left : Shared} {uploads : List Upload} {stop moved : Stop} {stops : List Stop}
    (hadvance : stop.advance shared uploads {} = (left, moved)) :
    step ⟨shared, uploads, stops ++ [stop]⟩ (.stopNext stops.length {}) =
      some ⟨left, uploads, stops ++ [moved]⟩ := by
  have hstop : (stops ++ [stop])[stops.length]? = some stop := by simp
  simp only [step, hstop, hadvance]
  simp

theorem droppable_of_holds {state : State} {path : Bytes} {record : Record}
    (hrecord : state.shared.registry.recordOf (uploadJobId path) = some record)
    (honce : record.job.repeatSec = 0) (hunfinished : Registry.Unfinished record.job)
    (hvalid : state.shared.paused.file.isSome)
    (hholds : state.shared.paused.Holds (uploadJobId path) (state.shared.rowFile (uploadJobId path))) :
    Droppable state path := by
  obtain ⟨hid, hrowFile⟩ := hholds
  obtain ⟨file, hfile⟩ := Option.isSome_iff_exists.mp hvalid
  have hnil : state.shared.paused.id ≠ [] := by
    rw [hid]
    exact uploadJobId_ne_nil path
  have hcontains : state.shared.registry.contains (uploadJobId path) := by
    rw [Registry.contains, hrecord]
    rfl
  have hcome : step state (.stop path) =
      some ⟨state.shared, state.uploads, state.stops ++ [{ id := uploadJobId path }]⟩ := by
    simp only [step, hcontains, if_true]
  let asking : Stop := { id := uploadJobId path }
  let asked : Shared :=
    { state.shared with registry := (state.shared.registry.requestCancel (uploadJobId path)).1 }
  let taking : Stop := { asking with stage := .taking, target := state.shared.rowFile (uploadJobId path) }
  let taken : Shared := { asked with paused := {} }
  let discarding : Stop :=
    { taking with stage := .discarding state.shared.paused.volume state.shared.paused.path, took := true }
  have hrequest : step ⟨state.shared, state.uploads, state.stops ++ [asking]⟩
      (.stopNext state.stops.length {}) = some ⟨asked, state.uploads, state.stops ++ [taking]⟩ :=
    step_last (Stop.advance_requesting rfl (Registry.requestCancel_of_unfinished hrecord hunfinished))
  have htake : step ⟨asked, state.uploads, state.stops ++ [taking]⟩ (.stopNext state.stops.length {}) =
      some ⟨taken, state.uploads, state.stops ++ [discarding]⟩ :=
    step_last (Stop.advance_taking rfl hnil hid)
  obtain ⟨left, finishing, hdiscard, hregistry, hparts, hownId, hstage⟩ :
      ∃ left moved, discarding.advance taken state.uploads {} = (left, moved) ∧
        left.registry = asked.registry ∧ left.parts file = none ∧ moved.id = uploadJobId path ∧
          moved.stage = .finishing state.shared.paused.path :=
    Stop.advance_discarding rfl hfile rfl
  let ended : Shared :=
    { left with registry := left.registry.finish finishing.id .cancelled state.shared.paused.path 0 }
  obtain ⟨last, hend⟩ : ∃ moved, finishing.advance left state.uploads {} = (ended, moved) :=
    Stop.advance_finishing hstage
  refine ⟨file, ⟨ended, state.uploads, state.stops ++ [last]⟩, hrowFile.symm.trans hfile, ?_, ?_, hparts⟩
  · calc steps step state (.stop path :: List.replicate 4 (.stopNext state.stops.length {}))
      _ = steps step ⟨asked, state.uploads, state.stops ++ [taking]⟩
          (List.replicate 3 (.stopNext state.stops.length {})) := by
        rw [steps_cons hcome, replicate_succ, steps_cons hrequest]
      _ = steps step ⟨left, state.uploads, state.stops ++ [finishing]⟩
          [.stopNext state.stops.length {}] := by
        rw [replicate_succ, steps_cons htake, replicate_succ, steps_cons (step_last hdiscard),
          replicate_one]
      _ = some ⟨ended, state.uploads, state.stops ++ [last]⟩ := by
        rw [steps_cons (step_last hend)]
        rfl
  · simp only [ended, hregistry, hownId]
    apply Registry.recordOf_finish_self
    intro asked hasked
    rw [Registry.recordOf_requestCancel_self hrecord hunfinished] at hasked
    cases hasked
    exact honce

theorem Sound.safe {state : State} (hsound : Sound state) : Safe state where
  droppable path record hrecord hpaused := by
    obtain ⟨honce, hunfinished⟩ := hsound.once path record hrecord
    rcases hsound.paused path record hrecord hpaused with
      hholds | ⟨upload, hupload, hid, hremembering⟩ | ⟨stop, hstop, hid, hdrops, -⟩
    · left
      have hnil : state.shared.paused.id ≠ [] := by
        rw [hholds.1]
        exact uploadJobId_ne_nil path
      exact droppable_of_holds hrecord honce hunfinished (hsound.remembered hnil).2 hholds
    · right; left
      obtain ⟨number, hnumber⟩ := mem_iff_getElem?.mp hupload
      have hlive : upload.live := by rw [Upload.live, hremembering]
      have hrow := (hsound.rows upload hupload hlive record (hid ▸ hrecord)).1
      have hstep : Step state (.uploadNext number {}) { state with
          shared := { state.shared with paused := ⟨upload.id, upload.volume, upload.path⟩ }
          uploads := state.uploads.set number (upload.go .ended) } := by
        simp only [Step, step, hnumber, Upload.advance, hremembering]
      refine ⟨number, upload, _, hnumber, hid, hremembering, hstep, ?_⟩
      exact droppable_of_holds hrecord honce hunfinished (hsound.valid upload hupload hlive)
        ⟨hid, by rw [← hid]; exact hrow.symm⟩
    · exact .inr (.inr ⟨stop, hstop, hid, hdrops⟩)
  dropped stop hstop htook hover := by
    have hhonest := hsound.honest stop hstop
    rw [Stop.Honest, hover] at hhonest
    exact hhonest htook
  own := hsound.own
  apart := hsound.apart

/-- Where every step is orderly, a paused upload can be dropped, a stop that drops one removes the part and
the row of this upload and nothing else, and no two files share a row. -/
theorem upload_stops_drop {events : List Event} {state : State}
    (hrun : Run (fun state event state' ↦ Orderly state event ∧ Step state event state') {} events
      state) : Safe state := by
  have hkeep : ∀ state event state', Sound state → (Orderly state event ∧ Step state event state') →
      Sound state' := fun _ _ _ hsound hstep ↦ sound_step hsound hstep.1 hstep.2
  exact (hrun.preserves hkeep sound_start).safe

/-! ## Runs -/

def card : Bytes := ascii "sd"

/-- The next steps of an upload, while nothing comes in, or of a stop. -/
def uploadSteps (number count : Nat) : List Event := List.replicate count (.uploadNext number {})

def stopSteps (number count : Nat) : List Event := List.replicate count (.stopNext number {})

/-- A request for the first 8 of 10 bytes of a file. -/
def piece (volume path : Bytes) (offset : Nat) : Event := .upload volume path offset 10 8

/-- An upload is paused after 4 bytes and dropped, while one of another file is under way. -/
def timelyStop : List Event :=
  piece card (ascii "/a") 0 :: uploadSteps 0 4 ++ .uploadNext 0 { count := 4 } :: uploadSteps 0 6 ++
    .upload card (ascii "/b") 0 4 4 :: uploadSteps 1 4 ++ .stop (ascii "/a") :: stopSteps 0 2 ++
    .uploadNext 1 { count := 4 } :: stopSteps 0 2 ++ uploadSteps 1 6

theorem exists_upload_stops_drop :
    ∃ state, Run (fun state event state' ↦ Orderly state event ∧ Step state event state') {} timelyStop
        state ∧
      (state.uploads.map Upload.stage = [.ended, .ended] ∧ state.stops.map Stop.removed = [true]) ∧
      Safe state := by
  have hany : (steps (fun state event ↦ if Orderly state event then step state event else none) {}
      timelyStop).any (fun state ↦
        state.uploads.map Upload.stage = [.ended, .ended] ∧ state.stops.map Stop.removed = [true]) = true := by
    decide +kernel
  obtain ⟨state, hsteps, hstages⟩ := (Option.any_eq_true _ _).mp hany
  have hrun : Run (fun state event state' ↦ Orderly state event ∧ Step state event state') {} timelyStop
      state :=
    run_of_allowedSteps hsteps
  exact ⟨state, hrun, of_decide_eq_true hstages, upload_stops_drop hrun⟩

def twoVolumes : List Event :=
  piece card (ascii "/a") 0 :: uploadSteps 0 4 ++ piece (ascii "flash") (ascii "/a") 0 :: uploadSteps 1 3

/-- Two uploads are paused, and the second one is remembered. -/
def twoPauses : List Event :=
  piece card (ascii "/a") 0 :: uploadSteps 0 9 ++ piece card (ascii "/b") 0 :: uploadSteps 1 9

/-- A stop has taken the record of a paused upload when this upload starts again. -/
def resumed : List Event :=
  piece card (ascii "/a") 0 :: uploadSteps 0 9 ++ .stop (ascii "/a") :: stopSteps 0 2 ++
    piece card (ascii "/a") 0 :: uploadSteps 1 4 ++ stopSteps 0 1

def Breaks (events : List Event) (broken : State → Bool) : Prop :=
  ∃ state, Run Step {} events state ∧ broken state = true ∧ ¬Safe state

/-- The upload is shown as paused, nobody is at it, and a stop does not remove its row. -/
def stuck (path : Bytes) (state : State) : Bool :=
  (state.shared.registry.recordOf (uploadJobId path)).any (fun record ↦ record.job.state = .paused) &&
    state.uploads.all (fun upload ↦ upload.stage ≠ .remembering) &&
    state.stops.all (fun stop ↦ !stop.drops) &&
    (steps step state (.stop path :: List.replicate 4 (.stopNext state.stops.length {}))).all fun state' ↦
      state'.shared.registry.contains (uploadJobId path)

theorem breaks_of_steps {events : List Event} {broken : State → Bool}
    (hsteps : (steps step {} events).any broken)
    (hbroken : ∀ state, broken state → ¬Safe state) : Breaks events broken := by
  obtain ⟨state, hrun, hstateBroken⟩ := exists_run_of_any hsteps
  exact ⟨state, hrun, hstateBroken, hbroken state hstateBroken⟩

theorem not_safe_of_mixed (state : State) (hmixed : state.shared.mixed) : ¬Safe state := by
  intro hsafe
  exact Bool.false_ne_true (hsafe.apart.symm.trans hmixed)

theorem not_safe_of_stray (state : State) (hstray : state.shared.stray) : ¬Safe state := by
  intro hsafe
  exact Bool.false_ne_true (hsafe.own.symm.trans hstray)

theorem not_safe_of_stuck (path : Bytes) (state : State) (hstuck : stuck path state) :
    ¬Safe state := by
  intro hsafe
  simp only [stuck, Bool.and_eq_true, all_eq_true, decide_eq_true_eq] at hstuck
  obtain ⟨⟨⟨hpaused, huploads⟩, hstops⟩, hkept⟩ := hstuck
  obtain ⟨record, hrecord, hstate⟩ := (Option.any_eq_true _ _).mp hpaused
  rcases hsafe.droppable path record hrecord (of_decide_eq_true hstate) with
    hdroppable | ⟨number, upload, -, hnumber, -, hremembering, -⟩ | ⟨stop, hstop, -, hdrops⟩
  · obtain ⟨file, state', -, hsteps, hnone, -⟩ := hdroppable
    rw [hsteps] at hkept
    simp [Registry.contains, hnone] at hkept
  · exact huploads upload (mem_of_getElem? hnumber) hremembering
  · simpa [hdrops] using hstops stop hstop

theorem upload_stops_fail :
    Breaks twoVolumes (fun state ↦ state.shared.mixed) ∧ Breaks twoPauses (stuck (ascii "/a")) ∧
      Breaks resumed (fun state ↦ state.shared.stray) :=
  ⟨breaks_of_steps (by decide +kernel) not_safe_of_mixed,
    breaks_of_steps (by decide +kernel) (not_safe_of_stuck (ascii "/a")),
    breaks_of_steps (by decide +kernel) not_safe_of_stray⟩

end DhcpServer.Files.UploadRows
