import DhcpServer.Files.FormatSteps

/-!
# A format that is stopped in time

The steps of the stops and of the power cuts fit the format that is under way. So in every run of orderly
steps the answers are true, each format ends its own record, and the power is cut under a stopped erase.
-/

namespace DhcpServer.Files.FormatStops

open Library Core.JobRegistry List

section Sound

variable {state : State} (hsound : Sound state)

include hsound

theorem Sound.others {shared : Shared} {stops : List Stop} (hlast : shared.last = state.shared.last)
    (hstopped : shared.stopped = state.shared.stopped) (hown : shared.foreign = false)
    (hrunning : shared.stray = false) (hcallDone : shared.callDone = state.shared.callDone)
    (hplaced : ∀ number format, state.shared.last = some number → state.formats[number]? = some format →
      (view state.shared state.stops number).Placed format.volume format.stage →
      (view shared stops number).Placed format.volume format.stage)
    (hunknown : state.shared.last = none → shared.registry.recordOf formatId = none)
    (hstops : ∀ stop ∈ stops, stop.underWay → ∃ number format, stop.operation = some number ∧
      state.shared.last = some number ∧ number ∈ state.shared.stopped ∧
      state.formats[number]? = some format ∧ stop.Aims format.volume ∧
      (stop.cuts = true → format.stage = .erasing)) :
    Sound { state with shared, stops } where
  alone number format hformat hunder := by
    rw [hlast]
    exact hsound.alone number format hformat hunder
  known number hnumber := by
    rw [hlast] at hnumber
    obtain ⟨format, hformat, hfits⟩ := hsound.known number hnumber
    have hsame : (view shared stops number).callDone =
        (view state.shared state.stops number).callDone := hcallDone
    exact ⟨format, hformat, hplaced number format hnumber hformat hfits.placed,
      fun hcalling ↦ hsame.trans (hfits.calling hcalling), fun hnoted ↦ hsame.trans (hfits.noted hnoted)⟩
  unknown hnone := hunknown (hlast.symm.trans hnone)
  begun number hnumber := hsound.begun number (hstopped ▸ hnumber)
  honest := hsound.honest
  told number format answer hformat hstage hnumber :=
    hsound.told number format answer hformat hstage (hstopped ▸ hnumber)
  stops stop hstop hunder := by
    rw [hlast, hstopped]
    exact hstops stop hstop hunder
  own := hown
  running := hrunning

theorem Sound.stop_moved {place number : Nat} {moved : Stop} {format : Format} {registry : Registry}
    {abandoned stray : Bool} (hlast : state.shared.last = some number) (hmem : number ∈ state.shared.stopped)
    (hformat : state.formats[number]? = some format) (hoperation : moved.operation = some number)
    (hrunning : stray = false)
    (haims : moved.underWay →
      moved.Aims format.volume ∧ (moved.cuts = true → format.stage = .erasing))
    (hplaced : (view state.shared state.stops number).Placed format.volume format.stage →
      (view { state.shared with registry, abandoned, stray } (state.stops.set place moved) number).Placed
        format.volume format.stage) :
    Sound { state with
      shared := { state.shared with registry, abandoned, stray }
      stops := state.stops.set place moved } := by
  apply hsound.others
  · rfl
  · rfl
  · exact hsound.own
  · exact hrunning
  · rfl
  · intro same other hsame hother hold
    obtain rfl := Option.some.inj (hlast.symm.trans hsame)
    obtain rfl := Option.some.inj (hformat.symm.trans hother)
    exact hplaced hold
  · intro hnone
    rw [hlast] at hnone
    cases hnone
  · intro other hother hunder
    rcases mem_or_eq_of_mem_set hother with hold | rfl
    · exact hsound.stops other hold hunder
    · exact ⟨number, format, hoperation, hlast, hmem, hformat, haims hunder⟩

theorem Sound.stop_over {place : Nat} {stop : Stop} (hstop : state.stops[place]? = some stop)
    (hending : stop.ending = false) (haccepted : stop.accepted = false) :
    Sound { state with stops := state.stops.set place (stop.go .done) } := by
  apply hsound.others rfl rfl hsound.own hsound.running rfl _ hsound.unknown
  · intro other hother hunder
    rcases mem_or_eq_of_mem_set hother with hold | rfl
    · exact hsound.stops other hold hunder
    · cases hunder
  · intro number format _ _ hold
    have hview : view state.shared (state.stops.set place (stop.go .done)) number =
        view state.shared state.stops number := view_set hstop hending.symm haccepted.symm
    rwa [hview]

theorem Sound.stop_accepted {place number : Nat} {stop : Stop} {format : Format} {registry : Registry}
    {old record : Record} (hstop : state.stops[place]? = some stop)
    (hrequesting : stop.stage = .requesting) (hlast : state.shared.last = some number)
    (hformat : state.formats[number]? = some format) (hundecided : format.decided = false)
    (hold : state.shared.registry.recordOf formatId = some old)
    (hrecord : registry.recordOf formatId = some record) (hshows : Shows True format.volume record) :
    Sound { state with
      shared := { state.shared with registry, stopped := number :: state.shared.stopped }
      stops := state.stops.set place { stop with stage := .listing, operation := some number } } where
  alone := hsound.alone
  known same hsame := by
    obtain rfl := Option.some.inj (hlast.symm.trans hsame)
    obtain ⟨other, hother, hfits⟩ := hsound.known number hlast
    obtain rfl := Option.some.inj (hformat.symm.trans hother)
    have hdrop : format.stage ≠ .dropping := by
      intro hstage
      simp [Format.decided, hstage] at hundecided
    have hfinish : format.stage ≠ .finishing false := by
      intro hstage
      simp [Format.decided, hstage] at hundecided
    have hview : view { state.shared with registry, stopped := number :: state.shared.stopped }
        (state.stops.set place { stop with stage := .listing, operation := some number }) number =
        { view state.shared state.stops number with
          record := some record, stopped := True, accepted := True } := by
      have hending : (∃ other ∈ state.stops.set place
          { stop with stage := .listing, operation := some number }, other.ending = true) ↔
          ∃ other ∈ state.stops, other.ending = true :=
        exists_mem_set_iff hstop (by simp [Stop.ending, hrequesting])
      have haccepted : (∃ other ∈ state.stops.set place
          { stop with stage := .listing, operation := some number }, other.accepted = true) ↔ True :=
        iff_true_intro ⟨_, mem_set (List.getElem?_eq_some_iff.mp hstop).1 _, rfl⟩
      rw [view, propext hending, propext haccepted, hrecord]
      simp [view]
    refine ⟨format, hformat, ?_⟩
    rw [hview]
    exact ⟨hfits.placed.request hold hshows hdrop hfinish, hfits.calling, hfits.noted⟩
  unknown hnone := by
    rw [hlast] at hnone
    cases hnone
  begun same hsame := by
    rcases mem_cons.mp hsame with rfl | hmem
    · obtain ⟨other, hother, hfits⟩ := hsound.known same hlast
      refine ⟨other, hother, fun hstage ↦ ?_⟩
      have hplaced := hfits.placed
      rw [hstage] at hplaced
      exact hplaced
    · exact hsound.begun same hmem
  honest := hsound.honest
  told same other answer hother hstage hsame := by
    rcases mem_cons.mp hsame with rfl | hmem
    · obtain ⟨known, hknown, hfits⟩ := hsound.known same hlast
      obtain rfl := Option.some.inj (hother.symm.trans hknown)
      have hplaced := hfits.placed
      rw [hstage] at hplaced
      cases answer with
      | cancelled => rfl
      | conflict | tooMany | cannotStart | result =>
        have hnone : state.shared.registry.recordOf formatId = none := hplaced.1
        rw [hold] at hnone
        cases hnone
    · exact hsound.told same other answer hother hstage hmem
  stops other hother hunder := by
    rcases mem_or_eq_of_mem_set hother with hmem | rfl
    · obtain ⟨same, known, hoperation, hsame, hstopped, hrest⟩ := hsound.stops other hmem hunder
      exact ⟨same, known, hoperation, hsame, mem_cons_of_mem _ hstopped, hrest⟩
    · exact ⟨number, format, rfl, hlast, mem_cons_self, hformat, trivial, fun hfalse ↦ by cases hfalse⟩
  own := hsound.own
  running := hsound.running

theorem Sound.requestCancel {place : Nat} {stop : Stop} {chance : Chance}
    (hstop : state.stops[place]? = some stop) (hrequesting : stop.stage = .requesting)
    (hundecided : ∀ format ∈ state.formats, format.decided = false) :
    Sound { state with
      shared := (stop.advance state.shared state.formats chance).1
      stops := state.stops.set place (stop.advance state.shared state.formats chance).2 } := by
  rw [Stop.advance, hrequesting]
  cases hrecord : state.shared.registry.recordOf formatId with
  | none =>
    simp only [Registry.requestCancel_of_none hrecord]
    exact hsound.stop_over hstop (by simp [Stop.ending, hrequesting]) (by simp [Stop.accepted, hrequesting])
  | some old =>
    obtain ⟨number, format, hlast, hformat, hshows⟩ := hsound.record_running hrecord
    have hrunning : Running state.shared.registry formatId := ⟨old, hrecord, hshows.running, hshows.once⟩
    have haccepted := hsound.stop_accepted hstop hrequesting hlast hformat
      (hundecided format (mem_of_getElem? hformat)) hrecord
      (Registry.recordOf_requestCancel_self hrecord (.inl hshows.running))
      ⟨hshows.running, hshows.once, hshows.arg, by simp⟩
    simpa only [Registry.requestCancel_of_running hrunning, hlast, if_true, Option.toList_some,
      singleton_append] using haccepted

theorem Sound.stop_advance {place : Nat} {stop : Stop} {chance : Chance}
    (hstop : state.stops[place]? = some stop) (horderly : stop.stage.Orderly state stop.operation) :
    Sound { state with
      shared := (stop.advance state.shared state.formats chance).1
      stops := state.stops.set place (stop.advance state.shared state.formats chance).2 } := by
  have hmem := mem_of_getElem? hstop
  cases hstage : stop.stage with
  | requesting =>
    rw [hstage] at horderly
    exact hsound.requestCancel hstop hstage horderly
  | done =>
    rw [Stop.advance, hstage]
    exact hsound.stop_over hstop (by simp [Stop.ending, hstage]) (by simp [Stop.accepted, hstage])
  | listing =>
    obtain ⟨number, format, hoperation, hlast, hstopped, hformat, -, -⟩ :=
      hsound.stops stop hmem (by simp [Stop.underWay, hstage])
    rw [Stop.advance, hstage]
    refine hsound.stop_moved hlast hstopped hformat hoperation hsound.running
      (fun _ ↦ ⟨?_, fun hfalse ↦ by cases hfalse⟩) ?_
    · obtain ⟨same, hsame, hfits⟩ := hsound.known number hlast
      obtain rfl := Option.some.inj (hformat.symm.trans hsame)
      intro haim
      cases hrecord : state.shared.registry.recordOf formatId with
      | none => simp [hrecord] at haim
      | some record => exact (hfits.placed.shows hrecord).arg.symm
    · intro hplaced
      rwa [view_set hstop (by simp [Stop.ending, Stop.go, hstage]) (by simp [Stop.accepted, Stop.go, hstage])]
  | abandoning volume =>
    obtain ⟨number, format, hoperation, hlast, hstopped, hformat, haims, -⟩ :=
      hsound.stops stop hmem (by simp [Stop.underWay, hstage])
    rw [Stop.Aims, hstage] at haims
    rw [hstage] at horderly
    rw [Stop.advance, hstage]
    refine hsound.stop_moved hlast hstopped hformat hoperation hsound.running
      (fun _ ↦ ⟨haims, fun hfalse ↦ by cases hfalse⟩)
      fun hplaced ↦ ?_
    have hending : ∃ other ∈ state.stops.set place (stop.go (.finishing volume)), other.ending = true :=
      ⟨_, mem_set (List.getElem?_eq_some_iff.mp hstop).1 _, rfl⟩
    exact hplaced.abandon (horderly format (mem_of_getElem? hformat)) hstopped hending _
  | finishing volume =>
    obtain ⟨number, format, hoperation, hlast, hstopped, hformat, haims, -⟩ :=
      hsound.stops stop hmem (by simp [Stop.underWay, hstage])
    rw [Stop.Aims, hstage] at haims
    rw [Stop.advance, hstage]
    refine hsound.stop_moved hlast hstopped hformat hoperation hsound.running
      (fun _ ↦ ⟨haims, fun hfalse ↦ by cases hfalse⟩)
      fun hplaced ↦ ?_
    have haccepted : (∃ other ∈ state.stops.set place (stop.go (.starting volume)),
        other.accepted = true) ↔ ∃ other ∈ state.stops, other.accepted = true :=
      exists_mem_set_iff hstop (by simp [Stop.accepted, Stop.go, hstage])
    have hending : (view state.shared state.stops number).ending :=
      ⟨stop, hmem, by simp [Stop.ending, hstage]⟩
    rw [view, hsound.finish_none, propext haccepted]
    exact hplaced.finish hending hstopped _
  | starting volume =>
    obtain ⟨number, format, hoperation, hlast, hstopped, hformat, haims, -⟩ :=
      hsound.stops stop hmem (by simp [Stop.underWay, hstage])
    rw [Stop.Aims, hstage] at haims
    by_cases hstarts : volume ≠ [] ∧ chance.holds = true
    · simp only [Stop.advance, hstage, if_pos hstarts]
      refine hsound.stop_moved hlast hstopped hformat hoperation hsound.running
        (fun _ ↦ ⟨haims hstarts.1, fun hfalse ↦ by cases hfalse⟩) fun hplaced ↦ ?_
      rwa [view_set hstop (by simp [Stop.ending, Stop.go, hstage]) (by simp [Stop.accepted, Stop.go, hstage])]
    · simp only [Stop.advance, hstage, if_neg hstarts]
      exact hsound.stop_over hstop (by simp [Stop.ending, hstage]) (by simp [Stop.accepted, hstage])
  | waiting volume =>
    obtain ⟨number, format, hoperation, hlast, hstopped, hformat, haims, -⟩ :=
      hsound.stops stop hmem (by simp [Stop.underWay, hstage])
    rw [Stop.Aims, hstage] at haims
    rw [hstage] at horderly
    rw [Stop.advance, hstage]
    cases hcallDone : state.shared.callDone with
    | true =>
      exact hsound.stop_over hstop (by simp [Stop.ending, hstage]) (by simp [Stop.accepted, hstage])
    | false =>
      -- the flag is clear, so the format has not noted the return of its erase
      obtain ⟨same, hsame, hfits⟩ := hsound.known number hlast
      obtain rfl := Option.some.inj (hformat.symm.trans hsame)
      have herasing : format.stage = .erasing :=
        (horderly number hoperation format hformat).resolve_right fun hnoted ↦
          Bool.false_ne_true (hcallDone.symm.trans (hfits.noted hnoted))
      refine hsound.stop_moved hlast hstopped hformat hoperation hsound.running
        (fun _ ↦ ⟨haims, fun _ ↦ herasing⟩) fun hplaced ↦ ?_
      rwa [view_set hstop (by simp [Stop.ending, Stop.go, hstage]) (by simp [Stop.accepted, Stop.go, hstage])]
  | cutting volume =>
    obtain ⟨number, format, hoperation, hlast, hstopped, hformat, haims, herasing⟩ :=
      hsound.stops stop hmem (by simp [Stop.underWay, hstage])
    rw [Stop.Aims, hstage] at haims
    have herases : Erases state.formats stop.operation volume :=
      ⟨number, hoperation, format, hformat, herasing (by simp [Stop.cuts, hstage]), haims⟩
    rw [Stop.advance, hstage]
    simp only [herases, decide_true, Bool.not_true, Bool.or_false]
    exact hsound.stop_over hstop (by simp [Stop.ending, hstage]) (by simp [Stop.accepted, hstage])

theorem Sound.stop (stage : StopStage) (hstage : stage = .requesting ∨ stage = .done) :
    Sound { state with stops := state.stops ++ [{ stage := stage }] } := by
  have hending : ({ stage := stage } : Stop).ending = false := by
    rcases hstage with rfl | rfl <;> rfl
  have haccepted : ({ stage := stage } : Stop).accepted = false := by
    rcases hstage with rfl | rfl <;> rfl
  apply hsound.others rfl rfl hsound.own hsound.running rfl _ hsound.unknown
  · intro other hother hunder
    rcases mem_append.mp hother with hold | hnew
    · exact hsound.stops other hold hunder
    · obtain rfl := mem_singleton.mp hnew
      rcases hstage with rfl | rfl <;> cases hunder
  · intro number format _ _ hold
    have hview : view state.shared (state.stops ++ [{ stage := stage }]) number =
        view state.shared state.stops number := by
      simp [view, or_and_right, exists_or, hending, haccepted]
    rwa [hview]

theorem Sound.call {call : Call} (hid : call.id ≠ formatId) :
    Sound { state with shared := { state.shared with registry := call.apply state.shared.registry } } := by
  have hrecord : (call.apply state.shared.registry).recordOf formatId =
      state.shared.registry.recordOf formatId := by
    apply recordOf_apply_of_ne hid
    intro record hrecord
    obtain ⟨number, format, -, -, hshows⟩ := hsound.record_running hrecord
    exact hshows.running
  refine hsound.others rfl rfl hsound.own hsound.running rfl ?_ ?_ hsound.stops
  · intro number format _ _ hold
    rwa [view, hrecord]
  · exact fun hnone ↦ hrecord.trans (hsound.unknown hnone)

end Sound

theorem Format.advance_answered {shared : Shared} {number : Nat} {format : Format} {chance : Chance}
    {answer : Answer} (hstage : format.stage = .answered answer) :
    format.advance shared number chance = (shared, format) := by
  obtain ⟨volume, stage, status, detail, erased, noted⟩ := format
  obtain rfl : stage = .answered answer := hstage
  rfl

theorem sound_step {state state' : State} {event : Event} (hsound : Sound state)
    (horderly : Orderly state event) (hstep : Step state event state') : Sound state' := by
  cases event with
  | request volume =>
    cases hstep
    exact hsound.request volume
  | format number chance =>
    simp only [Step, step] at hstep
    split at hstep
    · cases hstep
    · rename_i format hformat
      cases hstep
      cases hunder : format.underWay with
      | true => exact hsound.advance hformat hunder (horderly format hformat)
      | false =>
        cases hstage : format.stage with
        | beginning => exact hsound.begin hformat hstage (horderly format hformat)
        | answered answer =>
          have hsame : format.advance state.shared number chance = (state.shared, format) :=
            Format.advance_answered hstage
          rw [hsame, set_of_getElem? hformat]
          exact hsound
        | _ => simp [Format.underWay, hstage] at hunder
  | stop =>
    cases hstep
    apply hsound.stop
    split_ifs
    · exact .inl rfl
    · exact .inr rfl
  | stopNext number chance =>
    simp only [Step, step] at hstep
    split at hstep
    · cases hstep
    · rename_i stop hstop
      cases hstep
      exact hsound.stop_advance hstop (horderly stop hstop)
  | call call =>
    simp only [Step, step] at hstep
    split_ifs at hstep with hid
    cases hstep
    exact hsound.call hid

/-- Where every step is orderly, a client is told `ok` for its own erase only and `cancelled` for a format
that has been stopped, no format ends the record of another one, and the power is cut under the erase that
has been stopped. -/
theorem format_stops_safely {events : List Event} {state : State}
    (hrun : Run (fun state event state' ↦ Orderly state event ∧ Step state event state') {} events
      state) : Safe state := by
  have hkeep : ∀ state event state', Sound state → (Orderly state event ∧ Step state event state') →
      Sound state' := fun _ _ _ hsound hstep ↦ sound_step hsound hstep.1 hstep.2
  exact (hrun.preserves hkeep sound_start).safe

def card : Bytes := ascii "sd"

/-- The next steps of a format, or of a stop, while all goes well. -/
def formatSteps (number count : Nat) : List Event := List.replicate count (.format number {})

def stopSteps (number count : Nat) : List Event := List.replicate count (.stopNext number {})

/-- A format is stopped while its erase runs, and the power is cut; a retry after its answer works. -/
def timelyStop : List Event :=
  .request card :: formatSteps 0 10 ++ .stop :: stopSteps 0 7 ++
    .format 0 { holds := false, detail := ascii "timeout" } :: formatSteps 0 5 ++
    .request card :: formatSteps 1 17

theorem exists_format_stops_safely :
    ∃ state, Run (fun state event state' ↦ Orderly state event ∧ Step state event state') {} timelyStop
        state ∧
      state.formats.map Format.stage = [.answered .cancelled, .answered (.result .ok [])] ∧ Safe state := by
  have hany : (steps (fun state event ↦ if Orderly state event then step state event else none) {}
      timelyStop).any (fun state ↦
        state.formats.map Format.stage = [.answered .cancelled, .answered (.result .ok [])]) = true := by
    decide +kernel
  obtain ⟨state, hsteps, hstages⟩ := (Option.any_eq_true _ _).mp hany
  have hrun : Run (fun state event state' ↦ Orderly state event ∧ Step state event state') {} timelyStop
      state :=
    run_of_allowedSteps hsteps
  exact ⟨state, hrun, of_decide_eq_true hstages, format_stops_safely hrun⟩

/-- A stop is accepted before the task looks for it. There is no erase, and the power is cut. -/
def earlyStop : List Event :=
  .request card :: formatSteps 0 4 ++ .stop :: stopSteps 0 1 ++ formatSteps 0 1 ++ stopSteps 0 6

/-- A stopped format is tried again while its erase runs. The retry clears `g_formatAbandoned`, so that
the first task finishes the record of the second and tells its client `ok`. -/
def hastyRetry : List Event :=
  .request card :: formatSteps 0 10 ++ .stop :: stopSteps 0 5 ++ .request card :: formatSteps 1 4 ++
    formatSteps 0 7

/-- A stop is accepted when the task has read `g_formatAbandoned` and has not finished the record. -/
def lateStop : List Event := .request card :: formatSteps 0 15 ++ .stop :: stopSteps 0 1 ++ formatSteps 0 2

def Breaks (events : List Event) (broken : State → Bool) : Prop :=
  ∃ state, Run Step {} events state ∧ broken state = true ∧ ¬Safe state

/-- The first client has been told `ok`, though its format has been stopped. -/
def toldOk (state : State) : Bool :=
  state.formats[0]?.any (fun format ↦ format.stage = .answered (.result .ok [])) &&
    decide (0 ∈ state.shared.stopped)

theorem breaks_of_steps {events : List Event} {broken : State → Bool}
    (hsteps : (steps step {} events).any broken)
    (hbroken : ∀ state, broken state → ¬Safe state) : Breaks events broken := by
  obtain ⟨state, hrun, hstateBroken⟩ := exists_run_of_any hsteps
  exact ⟨state, hrun, hstateBroken, hbroken state hstateBroken⟩

theorem not_safe_of_stray (state : State) (hstray : state.shared.stray) : ¬Safe state := by
  intro hsafe
  exact Bool.false_ne_true (hsafe.running.symm.trans hstray)

theorem not_safe_of_foreign (state : State) (hforeign : state.shared.foreign) : ¬Safe state := by
  intro hsafe
  exact Bool.false_ne_true (hsafe.own.symm.trans hforeign)

theorem not_safe_of_toldOk (state : State) (htold : toldOk state) : ¬Safe state := by
  intro hsafe
  rw [toldOk, Bool.and_eq_true, decide_eq_true_eq] at htold
  obtain ⟨hany, hstopped⟩ := htold
  obtain ⟨format, hformat, hstage⟩ := (Option.any_eq_true _ _).mp hany
  exact (hsafe.ok 0 format [] hformat (of_decide_eq_true hstage)).2 hstopped

theorem format_stops_unsafely : Breaks earlyStop (fun state ↦ state.shared.stray) ∧
      Breaks hastyRetry (fun state ↦ state.shared.foreign) ∧ Breaks hastyRetry toldOk ∧
      Breaks lateStop toldOk :=
  ⟨breaks_of_steps (by decide +kernel) not_safe_of_stray,
    breaks_of_steps (by decide +kernel) not_safe_of_foreign,
    breaks_of_steps (by decide +kernel) not_safe_of_toldOk,
    breaks_of_steps (by decide +kernel) not_safe_of_toldOk⟩

end DhcpServer.Files.FormatStops
