import DhcpServer.Files.FormatInvariant

/-!
# The steps of a format

A step of the format that is under way keeps what the others may rely on: the record, the two flags and the
erase fit where the format comes to. A request that finds a format under way is turned away.
-/

namespace DhcpServer.Files.FormatStops

open Library Core.JobRegistry List

section Sound

variable {state : State} (hsound : Sound state)

include hsound

theorem Sound.fits {number : Nat} {format : Format} (hformat : state.formats[number]? = some format)
    (hunder : format.underWay) :
    state.shared.last = some number ∧ Fits (view state.shared state.stops number) format := by
  have hlast := hsound.alone number format hformat hunder
  obtain ⟨same, hsame, hfits⟩ := hsound.known number hlast
  obtain rfl := Option.some.inj (hformat.symm.trans hsame)
  exact ⟨hlast, hfits⟩

theorem Sound.moved {number : Nat} {format moved : Format} {registry : Registry}
    {abandoned callDone formatting : Bool} (hformat : state.formats[number]? = some format)
    (hlast : state.shared.last = some number) (hvolume : moved.volume = format.volume)
    (hstage : moved.stage ≠ .beginning)
    (hcuts : format.stage = .erasing → ∀ stop ∈ state.stops, stop.cuts = false)
    (hhonest : moved.Honest)
    (hfits : Fits (view { state.shared with registry, abandoned, callDone, formatting } state.stops number)
      moved)
    (htold : ∀ answer, moved.stage = .answered answer → number ∈ state.shared.stopped →
      answer = .cancelled) :
    Sound { state with
      shared := { state.shared with registry, abandoned, callDone, formatting }
      formats := state.formats.set number moved } where
  alone place other hother hunder := by
    rcases getElem?_set_cases hformat hother with ⟨rfl, -⟩ | ⟨-, hold⟩
    · exact hlast
    · exact hsound.alone place other hold hunder
  known place hplace := by
    obtain rfl : number = place := Option.some.inj (hlast.symm.trans hplace)
    refine ⟨moved, ?_, hfits⟩
    exact getElem?_set_self (List.getElem?_eq_some_iff.mp hformat).1
  unknown hnone := by
    rw [hlast] at hnone
    cases hnone
  begun place hplace := by
    obtain ⟨other, hother, hbeginning⟩ := hsound.begun place hplace
    obtain ⟨other', hother', hcases⟩ := exists_getElem?_set moved hother
    refine ⟨other', hother', ?_⟩
    rcases hcases with ⟨-, rfl⟩ | ⟨-, rfl⟩
    · exact hstage
    · exact hbeginning
  honest other hother := by
    rcases mem_or_eq_of_mem_set hother with hold | rfl
    · exact hsound.honest other hold
    · exact hhonest
  told place other answer hother hanswered := by
    rcases getElem?_set_cases hformat hother with ⟨rfl, rfl⟩ | ⟨-, hold⟩
    · exact htold answer hanswered
    · exact hsound.told place other answer hold hanswered
  stops stop hstop hunder := by
    obtain ⟨place, same, hoperation, hplace, hmem, hsame, haims, herasing⟩ := hsound.stops stop hstop hunder
    obtain rfl : number = place := Option.some.inj (hlast.symm.trans hplace)
    obtain rfl : format = same := Option.some.inj (hformat.symm.trans hsame)
    refine ⟨number, moved, hoperation, hlast, hmem, ?_, by rwa [hvolume], ?_⟩
    · exact getElem?_set_self (List.getElem?_eq_some_iff.mp hformat).1
    · intro hcut
      simp [hcuts (herasing hcut) stop hstop] at hcut
  own := hsound.own
  running := hsound.running

/-- A step before the return of the erase has been noted: the format still waits for the same. -/
theorem Sound.within {number : Nat} {format moved : Format} {formatting : Bool}
    (hformat : state.formats[number]? = some format) (hcalling : format.stage.calling)
    (hcalling' : moved.stage.calling) (hvolume : moved.volume = format.volume)
    (hcuts : format.stage = .erasing → ∀ stop ∈ state.stops, stop.cuts = false)
    (hhonest : moved.Honest) :
    Sound { state with
      shared := { state.shared with formatting }
      formats := state.formats.set number moved } := by
  have hunder : format.underWay := by
    rw [Format.underWay]
    cases hstage : format.stage <;> simp [hstage, Stage.calling] at hcalling ⊢
  obtain ⟨hlast, hfits⟩ := hsound.fits hformat hunder
  have hopen : (view state.shared state.stops number).Open moved.volume := by
    rw [hvolume]
    exact (View.placed_of_calling hcalling).mp hfits.placed
  have hnoted : moved.noted = false := by
    rw [Format.Honest] at hhonest
    cases hstage : moved.stage <;> simp [hstage, Stage.calling] at hcalling' hhonest <;>
      first | exact hhonest | exact hhonest.1
  have hanswered (answer : Answer) : moved.stage ≠ .answered answer := by
    rintro hstage
    simp [hstage, Stage.calling] at hcalling'
  refine hsound.moved hformat hlast hvolume ?_ hcuts hhonest ⟨?_, ?_, ?_⟩ ?_
  · rintro hstage
    simp [hstage, Stage.calling] at hcalling'
  · exact (View.placed_of_calling hcalling').mpr hopen
  · exact fun _ ↦ hfits.calling hcalling
  · simp [hnoted]
  · exact fun answer hstage ↦ absurd hstage (hanswered answer)

end Sound

namespace View

variable {view : View} {volume : Bytes}

theorem Recorded.asked (hrecorded : view.Recorded volume) :
    (view.record.any fun record ↦ record.job.cancelRequested) ↔ view.stopped := by
  obtain ⟨record, hrecord, hshows⟩ := hrecorded
  rw [hrecord]
  exact hshows.asked

/-- A stop that the registry does not show has removed the record and set `g_formatAbandoned`. -/
theorem Open.asked (hopen : view.Open volume) :
    if view.record.any fun record ↦ record.job.cancelRequested then view.stopped
    else view.stopped → view.abandoned = true := by
  rcases hopen.record with hrecorded | ⟨hnone, habandoned⟩
  · split_ifs with hasked
    · exact hrecorded.asked.mp hasked
    · exact fun hstopped ↦ absurd (hrecorded.asked.mpr hstopped) hasked
  · simp [hnone, habandoned]

theorem Placed.exchanging_of_open (hopen : view.Open volume) :
    view.Placed volume (.exchanging (view.record.any fun record ↦ record.job.cancelRequested)) := by
  have hasked := hopen.asked
  cases hany : view.record.any fun record ↦ record.job.cancelRequested with
  | true =>
    rw [if_pos hany] at hasked
    exact ⟨hopen, hasked⟩
  | false =>
    rw [if_neg (by simp [hany])] at hasked
    exact ⟨hopen, fun hstopped ↦ .inl (hasked hstopped)⟩

end View

theorem view_set {shared : Shared} {stops : List Stop} {place number : Nat} {stop moved : Stop}
    (hstop : stops[place]? = some stop) (hending : moved.ending = stop.ending)
    (haccepted : moved.accepted = stop.accepted) :
    view shared (stops.set place moved) number = view shared stops number := by
  have hendingIff : (∃ stop ∈ stops.set place moved, stop.ending = true) ↔
      ∃ stop ∈ stops, stop.ending = true := exists_mem_set_iff hstop (by rw [hending])
  have hacceptedIff : (∃ stop ∈ stops.set place moved, stop.accepted = true) ↔
      ∃ stop ∈ stops, stop.accepted = true := exists_mem_set_iff hstop (by rw [haccepted])
  rw [view, view, propext hendingIff, propext hacceptedIff]

theorem finish_eq {shared : Shared} {number now : Nat} {jobState : JobState} {detail : Bytes}
    (hlast : shared.last = some number) (hown : shared.foreign = false) :
    Format.finish shared number jobState detail now =
      { shared with registry := shared.registry.finish formatId jobState detail now } := by
  simp [Format.finish, hlast, hown]

theorem conclude_eq {shared : Shared} {number now : Nat} {format : Format} {cancelled : Bool}
    (hlast : shared.last = some number) (hown : shared.foreign = false) :
    ∃ jobState detail, format.conclude shared number cancelled now =
      { shared with registry := shared.registry.finish formatId jobState detail now } := by
  rw [Format.conclude]
  split_ifs <;> exact ⟨_, _, finish_eq hlast hown⟩

section Sound

variable {state : State} (hsound : Sound state)

include hsound

theorem Sound.finish_none (jobState : JobState) (detail : Bytes) (now : Nat) :
    (state.shared.registry.finish formatId jobState detail now).recordOf formatId = none := by
  apply Registry.recordOf_finish_self
  intro record hrecord
  obtain ⟨number, format, -, -, hshows⟩ := hsound.record_running hrecord
  exact hshows.once

variable {number : Nat} {format : Format}

theorem Sound.advance {chance : Chance}
    (hformat : state.formats[number]? = some format) (hunder : format.underWay)
    (horderly : format.stage.Orderly state number chance) :
    Sound { state with
      shared := (format.advance state.shared number chance).1
      formats := state.formats.set number (format.advance state.shared number chance).2 } := by
  obtain ⟨hlast, hplaced, hcalling, hnoted⟩ := hsound.fits hformat hunder
  have hhonest := hsound.honest format (mem_of_getElem? hformat)
  rw [Format.advance]
  rw [Format.Honest] at hhonest
  cases hstage : format.stage with
  | beginning | answered answer => simp [Format.underWay, hstage] at hunder
  | clearingAbandoned =>
    rw [hstage] at hplaced hhonest
    have hopen : (view { state.shared with abandoned := false } state.stops number).Open format.volume :=
      ⟨.inl hplaced.1, by simp [view], fun hending ↦ absurd hending hplaced.2, by simp [view]⟩
    exact hsound.moved hformat hlast rfl (by simp [Format.go]) (by simp [hstage]) hhonest
      (.of_idle hopen rfl hnoted) (by simp [Format.go])
  | clearingCallDone =>
    rw [hstage] at hplaced hhonest
    have hopen : (view { state.shared with callDone := false } state.stops number).Open format.volume :=
      ⟨hplaced.record, hplaced.stopped, hplaced.ending, hplaced.closing⟩
    exact hsound.moved hformat hlast rfl (by simp [Format.go]) (by simp [hstage]) hhonest
      ⟨hopen, fun _ ↦ rfl, by simp [Format.go, hhonest]⟩ (by simp [Format.go])
  | creating =>
    rw [hstage] at hplaced hhonest horderly
    cases hholds : chance.holds with
    | true =>
      exact hsound.within hformat (by simp [hstage, Stage.calling]) rfl rfl (by simp [hstage]) hhonest
    | false =>
      have hstopped : number ∉ state.shared.stopped := horderly.resolve_left (by simp [hholds])
      have hrecorded := hplaced.record.resolve_right fun hnone ↦ hstopped (hplaced.stopped hnone.2)
      exact hsound.moved hformat hlast rfl (by simp [Format.go]) (by simp [hstage]) hhonest
        (.of_idle ⟨hrecorded, hstopped⟩ rfl hnoted) (by simp [Format.go])
  | dropping =>
    rw [hstage] at hplaced hhonest
    simp only [finish_eq hlast hsound.own]
    exact hsound.moved hformat hlast rfl (by simp [Format.go]) (by simp [hstage]) trivial
      (.of_idle ⟨hsound.finish_none _ _ _, hplaced.2⟩ rfl hnoted)
      fun _ _ hstopped ↦ absurd hstopped hplaced.2
  | looking =>
    rw [hstage] at hplaced hhonest
    have hasked := View.Placed.exchanging_of_open hplaced
    cases hcancelled : state.shared.registry.cancelRequested formatId with
    | true =>
      have hexchanging : (view state.shared state.stops number).Placed format.volume (.exchanging true) := by
        rwa [← hcancelled]
      exact hsound.moved hformat hlast rfl (by simp [Format.go]) (by simp [hstage])
        (fun hfalse ↦ Bool.noConfusion hfalse) (.of_idle hexchanging rfl hnoted) (by simp [Format.go])
    | false =>
      exact hsound.within hformat (by simp [hstage, Stage.calling]) rfl rfl (by simp [hstage]) hhonest
  | finding =>
    rw [hstage] at hhonest
    cases chance.holds with
    | true =>
      exact hsound.within hformat (by simp [hstage, Stage.calling]) rfl rfl (by simp [hstage]) hhonest
    | false =>
      exact hsound.within hformat (by simp [hstage, Stage.calling]) rfl rfl (by simp [hstage])
        (Format.honest_refuse hhonest (by decide))
  | askingFormat =>
    rw [hstage] at hhonest
    cases state.shared.formatting with
    | true =>
      exact hsound.within hformat (by simp [hstage, Stage.calling]) rfl rfl (by simp [hstage])
        (Format.honest_refuse hhonest (by decide))
    | false =>
      exact hsound.within hformat (by simp [hstage, Stage.calling]) rfl rfl (by simp [hstage]) hhonest
  | askingCheck | askingRepair =>
    rw [hstage] at hhonest
    cases chance.holds with
    | true =>
      exact hsound.within hformat (by simp [hstage, Stage.calling]) rfl rfl (by simp [hstage]) hhonest
    | false =>
      exact hsound.within hformat (by simp [hstage, Stage.calling]) rfl rfl (by simp [hstage])
        (Format.honest_refuse hhonest (by decide))
  | claiming =>
    rw [hstage] at hhonest
    exact hsound.within hformat (by simp [hstage, Stage.calling]) rfl rfl (by simp [hstage]) hhonest
  | erasing =>
    rw [hstage] at hhonest horderly
    refine hsound.within hformat (by simp [hstage, Stage.calling]) rfl rfl (fun _ ↦ horderly) ⟨hhonest, ?_⟩
    cases chance.holds <;> simp
  | releasing =>
    rw [hstage] at hhonest
    exact hsound.within hformat (by simp [hstage, Stage.calling]) rfl rfl (by simp [hstage]) hhonest
  | noting =>
    rw [hstage] at hplaced hhonest
    have hopen : (view { state.shared with callDone := true } state.stops number).Open format.volume :=
      ⟨hplaced.record, hplaced.stopped, hplaced.ending, hplaced.closing⟩
    exact hsound.moved hformat hlast rfl (by simp) (by simp [hstage]) hhonest.2
      (.of_idle hopen rfl (fun _ ↦ rfl)) (by simp)
  | judging =>
    rw [hstage] at hplaced hhonest
    exact hsound.moved hformat hlast rfl (by simp [Format.go]) (by simp [hstage]) (fun _ ↦ hhonest)
      (.of_idle (View.Placed.exchanging_of_open hplaced) rfl hnoted) (by simp [Format.go])
  | exchanging cancelled =>
    rw [hstage] at hplaced hhonest horderly
    have hopen : (view state.shared state.stops number).Open format.volume := by
      cases cancelled <;> exact hplaced.1
    cases habandoned : state.shared.abandoned with
    | true =>
      have hclosed : (view { state.shared with abandoned := false } state.stops number).Closed
          format.volume :=
        (hopen.closing habandoned).elim .inl fun hending ↦
          hopen.record.symm.imp And.left fun hrecorded ↦ ⟨hrecorded, hending⟩
      exact hsound.moved hformat hlast rfl (by simp [Format.go]) (by simp [hstage])
        (fun hfalse ↦ Bool.noConfusion hfalse) (.of_idle ⟨hclosed, hopen.stopped habandoned⟩ rfl hnoted)
        (by simp [Format.go])
    | false =>
      refine hsound.moved hformat hlast rfl (by simp [Format.go]) (by simp [hstage]) hhonest
        (.of_idle ?_ rfl hnoted) (by simp [Format.go])
      cases cancelled with
      | true => exact ⟨hopen.record.imp_right And.left, hplaced.2⟩
      | false =>
        have hquiet := horderly.resolve_left (by simp [habandoned])
        have hstopped : number ∉ state.shared.stopped := by
          intro hstopped
          rcases hplaced.2 hstopped with hset | ⟨stop, hstop, haccepted⟩
          · exact absurd (habandoned.symm.trans hset) Bool.false_ne_true
          · simp [hquiet stop hstop] at haccepted
        exact ⟨hopen.record.resolve_right fun hnone ↦ by simp [view, habandoned] at hnone, hstopped⟩
  | finishing cancelled =>
    rw [hstage] at hplaced hhonest
    have hconclude : ∃ jobState detail, format.conclude state.shared number cancelled chance.now = _ :=
      conclude_eq hlast hsound.own
    obtain ⟨jobState, detail, hconclude⟩ := hconclude
    simp only [hconclude]
    refine hsound.moved hformat hlast rfl (by simp [Format.go]) (by simp [hstage]) hhonest
      (.of_idle ?_ rfl hnoted) (by simp [Format.go])
    cases cancelled with
    | true => exact ⟨.inl (hsound.finish_none _ _ _), hplaced.2⟩
    | false => exact ⟨hsound.finish_none _ _ _, hplaced.2⟩
  | answering cancelled =>
    rw [hstage] at hplaced hhonest
    cases cancelled with
    | true =>
      exact hsound.moved hformat hlast rfl (by simp [Format.go]) (by simp [hstage]) trivial
        (.of_idle hplaced.1 rfl hnoted) (by simp [Format.go])
    | false =>
      refine hsound.moved hformat hlast rfl (by simp [Format.go]) (by simp [hstage]) ?_
        (.of_idle hplaced rfl hnoted) fun _ _ hstopped ↦ absurd hstopped hplaced.2
      cases hstatus : format.status with
      | ok => simpa [Format.Honest, Format.go, hstatus] using hhonest rfl
      | _ => trivial

theorem Sound.turned_away
    (hformat : state.formats[number]? = some format) (hbeginning : format.stage = .beginning)
    {answer : Answer} (hanswer : ∀ detail, answer ≠ .result .ok detail) :
    Sound { state with formats := state.formats.set number (format.go (.answered answer)) } := by
  have hother : state.shared.last ≠ some number := by
    intro hlast
    obtain ⟨same, hsame, hfits⟩ := hsound.known number hlast
    obtain rfl := Option.some.inj (hformat.symm.trans hsame)
    simpa [hbeginning, View.Placed] using hfits.placed
  have hstopped : number ∉ state.shared.stopped := by
    intro hstopped
    obtain ⟨same, hsame, hbegun⟩ := hsound.begun number hstopped
    obtain rfl := Option.some.inj (hformat.symm.trans hsame)
    exact hbegun hbeginning
  have hkeep {place : Nat} (hplace : place ≠ number) {same : Format}
      (hsame : state.formats[place]? = some same) :
      (state.formats.set number (format.go (.answered answer)))[place]? = some same := by
    rw [getElem?_set_ne hplace.symm, hsame]
  have hne {place : Nat} (hlast : state.shared.last = some place) : place ≠ number := by
    rintro rfl
    exact hother hlast
  refine ⟨?_, ?_, hsound.unknown, ?_, ?_, ?_, ?_, hsound.own, hsound.running⟩
  · intro place same hsame hunder
    rcases getElem?_set_cases hformat hsame with ⟨-, rfl⟩ | ⟨-, hold⟩
    · cases hunder
    · exact hsound.alone place same hold hunder
  · intro place hlast
    obtain ⟨same, hsame, hfits⟩ := hsound.known place hlast
    exact ⟨same, hkeep (hne hlast) hsame, hfits⟩
  · intro place hplace
    obtain ⟨same, hsame, hbegun⟩ := hsound.begun place hplace
    have hne : place ≠ number := by
      rintro rfl
      exact hstopped hplace
    exact ⟨same, hkeep hne hsame, hbegun⟩
  · intro same hsame
    rcases mem_or_eq_of_mem_set hsame with hold | rfl
    · exact hsound.honest same hold
    · cases answer with
      | result status detail =>
        cases status with
        | ok => exact absurd rfl (hanswer detail)
        | _ => trivial
      | _ => trivial
  · intro place same later hsame hstage hplace
    rcases getElem?_set_cases hformat hsame with ⟨rfl, -⟩ | ⟨-, hold⟩
    · exact absurd hplace hstopped
    · exact hsound.told place same later hold hstage hplace
  · intro stop hstop hunder
    obtain ⟨place, same, hoperation, hlast, hmem, hsame, haims, hcuts⟩ := hsound.stops stop hstop hunder
    exact ⟨place, same, hoperation, hlast, hmem, hkeep (hne hlast) hsame, haims, hcuts⟩

theorem Sound.no_record (hformats : ∀ format ∈ state.formats, format.underWay = false)
    (hstops : ∀ stop ∈ state.stops, stop.underWay = false) :
    state.shared.registry.recordOf formatId = none := by
  cases hlast : state.shared.last with
  | none => exact hsound.unknown hlast
  | some number =>
    obtain ⟨format, hformat, hfits⟩ := hsound.known number hlast
    have hplaced := hfits.placed
    have hover := hformats format (mem_of_getElem? hformat)
    have hending : ¬(view state.shared state.stops number).ending := by
      rintro ⟨stop, hstop, hending⟩
      have hquiet := hstops stop hstop
      cases hstage : stop.stage <;> simp [Stop.ending, Stop.underWay, hstage] at hending hquiet
    cases hstage : format.stage with
    | answered answer =>
      rw [hstage] at hplaced
      cases answer with
      | cancelled => exact hplaced.resolve_right fun hclosed ↦ hending hclosed.2
      | conflict | tooMany | cannotStart | result => exact hplaced.1
    | beginning =>
      rw [hstage] at hplaced
      exact hplaced.elim
    | _ => simp [Format.underWay, hstage] at hover

theorem Sound.begun_alone {registry : Registry} {record : Record}
    (hformat : state.formats[number]? = some format) (hbeginning : format.stage = .beginning)
    (hformats : ∀ other ∈ state.formats, other.underWay = false)
    (hstops : ∀ stop ∈ state.stops, stop.underWay = false)
    (hrecord : registry.recordOf formatId = some record) (hshows : Shows False format.volume record) :
    Sound { state with
      shared := { state.shared with registry, last := some number }
      formats := state.formats.set number (format.go .clearingAbandoned) } := by
  have hfresh : number ∉ state.shared.stopped := by
    intro hstopped
    obtain ⟨same, hsame, hbegun⟩ := hsound.begun number hstopped
    obtain rfl := Option.some.inj (hformat.symm.trans hsame)
    exact hbegun hbeginning
  have hself : (state.formats.set number (format.go .clearingAbandoned))[number]? =
      some (format.go .clearingAbandoned) :=
    getElem?_set_self (List.getElem?_eq_some_iff.mp hformat).1
  have hhonest := hsound.honest format (mem_of_getElem? hformat)
  rw [Format.Honest, hbeginning] at hhonest
  refine ⟨?_, ?_, (fun hfalse ↦ by cases hfalse), ?_, ?_, ?_, ?_, hsound.own, hsound.running⟩
  · intro place same hsame hunder
    rcases getElem?_set_cases hformat hsame with ⟨rfl, -⟩ | ⟨-, hold⟩
    · rfl
    · simp [hformats same (mem_of_getElem? hold)] at hunder
  · intro place hplace
    cases hplace
    refine ⟨_, hself, ⟨⟨record, hrecord, ?_⟩, ?_⟩, (fun hfalse ↦ by cases hfalse), by simp [Format.go, hhonest]⟩
    · exact ⟨hshows.running, hshows.once, hshows.arg, hshows.asked.trans ⟨False.elim, hfresh⟩⟩
    · rintro ⟨stop, hstop, hending⟩
      have hquiet := hstops stop hstop
      cases hstage : stop.stage <;> simp [Stop.ending, Stop.underWay, hstage] at hending hquiet
  · intro place hplace
    obtain ⟨same, hsame, hbegun⟩ := hsound.begun place hplace
    have hne : number ≠ place := by
      rintro rfl
      exact hfresh hplace
    exact ⟨same, by rw [getElem?_set_ne hne, hsame], hbegun⟩
  · intro same hsame
    rcases mem_or_eq_of_mem_set hsame with hold | rfl
    · exact hsound.honest same hold
    · exact hhonest
  · intro place same answer hsame hstage hplace
    rcases getElem?_set_cases hformat hsame with ⟨rfl, -⟩ | ⟨-, hold⟩
    · exact absurd hplace hfresh
    · exact hsound.told place same answer hold hstage hplace
  · intro stop hstop hunder
    simp [hstops stop hstop] at hunder

theorem Sound.begin {chance : Chance}
    (hformat : state.formats[number]? = some format) (hbeginning : format.stage = .beginning)
    (horderly : format.stage.Orderly state number chance) :
    Sound { state with
      shared := (format.advance state.shared number chance).1
      formats := state.formats.set number (format.advance state.shared number chance).2 } := by
  rw [hbeginning] at horderly
  obtain ⟨hformats, hstops⟩ := horderly
  have hnone := hsound.no_record hformats hstops
  rw [Format.advance, hbeginning]
  cases hslot : state.shared.registry.slotFor formatId chance.now with
  | none =>
    simp only [Registry.begin_of_slotFor_none hslot]
    exact hsound.turned_away hformat hbeginning (by simp)
  | some slot =>
    have hbegin : (state.shared.registry.begin formatId (ascii "jobs.format") format.volume 0 .none 0
          chance.now).2 = true ∧
        (state.shared.registry.begin formatId (ascii "jobs.format") format.volume 0 .none 0
          chance.now).1.recordOf formatId = some _ :=
      Registry.begin_of_slotFor (by decide) hslot
    simp only [hbegin.1, if_true]
    exact hsound.begun_alone hformat hbeginning hformats hstops hbegin.2 ⟨rfl, rfl, rfl, by simp⟩

theorem Sound.request (volume : Bytes) : Sound { state with formats := state.formats ++ [{
      volume
      stage := if state.shared.registry.contains formatId then .answered .conflict else .beginning }] } := by
  have hlength {number : Nat} (hstopped : number ∈ state.shared.stopped) :
      number < state.formats.length := by
    obtain ⟨format, hformat, -⟩ := hsound.begun number hstopped
    exact (List.getElem?_eq_some_iff.mp hformat).1
  have hkeep {number : Nat} {format new : Format} (hformat : state.formats[number]? = some format) :
      (state.formats ++ [new])[number]? = some format := by
    rw [getElem?_append_left (List.getElem?_eq_some_iff.mp hformat).1, hformat]
  refine ⟨?_, ?_, hsound.unknown, ?_, ?_, ?_, ?_, hsound.own, hsound.running⟩
  · intro number format hformat hunder
    rcases getElem?_concat_cases hformat with hold | ⟨-, rfl⟩
    · exact hsound.alone number format hold hunder
    · split_ifs at hunder <;> cases hunder
  · intro number hlast
    obtain ⟨format, hformat, hfits⟩ := hsound.known number hlast
    exact ⟨format, hkeep hformat, hfits⟩
  · intro number hstopped
    obtain ⟨format, hformat, hbegun⟩ := hsound.begun number hstopped
    exact ⟨format, hkeep hformat, hbegun⟩
  · intro format hformat
    rcases mem_append.mp hformat with hold | hnew
    · exact hsound.honest format hold
    · obtain rfl := mem_singleton.mp hnew
      rw [Format.Honest]
      split_ifs <;> simp
  · intro number format answer hformat hstage hstopped
    rcases getElem?_concat_cases hformat with hold | ⟨hnumber, -⟩
    · exact hsound.told number format answer hold hstage hstopped
    · exact absurd hnumber (hlength hstopped).ne
  · intro stop hstop hunder
    obtain ⟨number, format, hoperation, hlast, hmem, hformat, haims, hcuts⟩ := hsound.stops stop hstop hunder
    exact ⟨number, format, hoperation, hlast, hmem, hkeep hformat, haims, hcuts⟩

end Sound

end DhcpServer.Files.FormatStops
