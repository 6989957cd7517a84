import DhcpServer.Files.SaveSteps

/-!
# Versions, and saves that are refused

In every run, disturbed or not: what reads and commits come across are versions that have been published,
each at a time of its own, and a save that is answered 409 has never opened the part.
-/

namespace DhcpServer.Files.TextSaves

open Library List Function
open Uploads (Content Disk Handle Phase Request marks stopped)

section Versions

variable {works : Nat → Work} {state state' : State} {event : Event} {request : Nat} {body : Bytes}

/-- What reads, saves and commits have come across has been published, each at a time of its own. -/
structure Recorded (state : State) : Prop where
  nodup : (state.versions.map Version.mtime).Nodup
  small : ∀ version ∈ state.versions, version.mtime < 2 ^ 31
  current : ∀ version, state.current = some version → version ∈ state.versions
  reads : ∀ version ∈ state.reads, version ∈ state.versions
  found : ∀ request version, state.found request = some version → version ∈ state.versions
  replaced : ∀ request commit version, state.commits request = some commit →
    commit.replaced = some version → version ∈ state.versions

theorem Recorded.eq_of_mtime (hrecorded : Recorded state) {first second : Version}
    (hfirst : first ∈ state.versions) (hsecond : second ∈ state.versions)
    (hmtime : first.mtime = second.mtime) : first = second :=
  inj_on_of_nodup_map hrecorded.nodup hfirst hsecond hmtime

theorem Recorded.of_same (hrecorded : Recorded state) (hversions : state'.versions = state.versions)
    (hcurrent : state'.current = state.current)
    (hreads : ∀ version ∈ state'.reads, version ∈ state.versions)
    (hfound : state'.found = state.found) (hcommits : state'.commits = state.commits) : Recorded state' where
  nodup := hversions ▸ hrecorded.nodup
  small := hversions ▸ hrecorded.small
  current := by
    rw [hversions, hcurrent]
    exact hrecorded.current
  reads := hversions ▸ hreads
  found := by
    rw [hversions, hfound]
    exact hrecorded.found
  replaced := by
    rw [hversions, hcommits]
    exact hrecorded.replaced

theorem found_of_follow {event : Uploads.Event} {mtime : Nat} {version : Version}
    (hfound : (state.follow event mtime).found request = some version) :
    state.found request = some version ∨ state.current = some version := by
  unfold State.follow at hfound
  split at hfound
  · rename_i remover _
    dsimp only at hfound
    rw [update_apply] at hfound
    split_ifs at hfound
    · exact .inr hfound
    · exact .inl hfound
  · split at hfound <;> exact .inl hfound
  · exact .inl hfound

theorem follow_publish {publisher file : Nat}
    (hsome : state.publishedBy (.publish publisher false) = some file) (mtime : Nat) :
    state.follow (.publish publisher false) mtime =
      { state with
        mtimes := update state.mtimes file mtime
        versions := state.versions ++ [⟨file, mtime⟩]
        commits := update state.commits publisher
          (some ⟨state.found publisher, state.uploads.disk.files file⟩) } := by
  simp only [State.follow, hsome]

variable {requests : Nat → Request}

theorem published_of_effect {event : Uploads.Event} {uploads : Uploads.State}
    {file : Nat} (hpublished : state.publishedBy event = some file)
    (heffect : Effect requests state.uploads event uploads) :
    uploads.disk.final = some file ∧ uploads.disk.files = state.uploads.disk.files := by
  obtain ⟨publisher, rfl, hphase, hfinal, hpart⟩ := publishedBy_eq_some.mp hpublished
  cases heffect with
  | published _ hpart' _ => exact ⟨hpart'.symm.trans hpart, rfl⟩
  | unpublished _ hnot => simp [hpart, hfinal] at hnot

theorem Recorded.act (hrecorded : Recorded state) {event : Uploads.Event}
    {mtime : Nat} {uploads : Uploads.State} (heffect : Effect requests state.uploads event uploads)
    (hfresh : isFresh state event mtime) :
    Recorded { state.follow event mtime with uploads } := by
  cases hpublished : state.publishedBy event with
  | none =>
    obtain ⟨-, hversions, hcommits⟩ := follow_of_none hpublished mtime
    have hreads : (state.follow event mtime).reads = state.reads := by
      unfold State.follow
      split
      · rfl
      · split <;> rfl
      · rfl
    refine ⟨hversions ▸ hrecorded.nodup, hversions ▸ hrecorded.small, ?_, ?_, ?_, ?_⟩
    · intro version hversion
      have hbefore := current_of_effect heffect hpublished mtime version hversion
      exact hversions ▸ hrecorded.current version hbefore
    · exact hversions ▸ hreads ▸ hrecorded.reads
    · intro request version hfound
      rcases found_of_follow hfound with hbefore | hcurrent
      · exact hversions ▸ hrecorded.found request version hbefore
      · exact hversions ▸ hrecorded.current version hcurrent
    · exact hversions ▸ hcommits ▸ hrecorded.replaced
  | some file =>
    obtain ⟨publisher, rfl, hphase, hfinal, hpart⟩ := publishedBy_eq_some.mp hpublished
    rw [isFresh, hpublished] at hfresh
    obtain ⟨hnew, hsmall⟩ : mtime ∉ state.versions.map Version.mtime ∧ mtime < 2 ^ 31 := by
      simpa using hfresh
    rw [follow_publish hpublished]
    have hkeep : ∀ version ∈ state.versions,
        version ∈ state.versions ++ [(⟨file, mtime⟩ : Version)] :=
      fun version hmem ↦ mem_append_left _ hmem
    refine ⟨?_, ?_, ?_, fun version hmem ↦ hkeep version (hrecorded.reads version hmem),
      fun other version hfound ↦ hkeep version (hrecorded.found other version hfound), ?_⟩
    · rw [map_append, map_singleton, ← concat_eq_append]
      exact hrecorded.nodup.concat hnew
    · intro version hmem
      rcases mem_append.mp hmem with hold | hlast
      · exact hrecorded.small version hold
      · rw [mem_singleton.mp hlast]
        exact hsmall
    · intro version hversion
      have hfinal' := (published_of_effect hpublished heffect).1
      obtain rfl : (⟨file, mtime⟩ : Version) = version := by
        simpa [State.current, hfinal'] using hversion
      exact mem_append_right _ (mem_singleton_self _)
    · intro other commit version hcommit hreplaced
      dsimp only at hcommit
      rw [update_apply] at hcommit
      split_ifs at hcommit with hsame
      · cases hcommit
        exact hkeep version (hrecorded.found publisher version hreplaced)
      · exact hkeep version (hrecorded.replaced other commit version hcommit hreplaced)

theorem Recorded.move (hrecorded : Recorded state) (hmove : Move works state event state') :
    Recorded state' := by
  cases hmove with
  | read =>
    refine hrecorded.of_same rfl rfl (fun version hmem ↦ ?_) rfl rfl
    rcases mem_append.mp hmem with hread | hnow
    · exact hrecorded.reads version hread
    · exact hrecorded.current version (Option.mem_toList.mp hnow)
  | acted _ hfresh heffect => exact hrecorded.act heffect hfresh
  | _ => exact hrecorded.of_same rfl rfl hrecorded.reads rfl rfl

/-- No save acts before its look at the modification time, and one that is refused has not opened the
part. -/
structure Started (state : State) (request : Nat) : Prop where
  waiting : state.passed request = false → state.uploads.phases request = .waiting
  refused : ∀ status, state.answers request = some (.failed status) →
    status = .ioError ∨ (state.uploads.phases request).opened = false

theorem mayAct_save {event : Uploads.Event} (hmay : mayAct works state event)
    (hactor : actor event = some request) (hwork : works request = .save body) :
    state.passed request ∧ state.answers request = none := by
  have hsave : (works request).isSave := by rw [hwork]; rfl
  unfold mayAct at hmay
  split at hmay
  · cases hactor
    simp [hsave] at hmay
  · cases hactor
    simp [hsave] at hmay
  · rw [hactor] at hmay
    simpa [hsave] using hmay

theorem follow_passed (event : Uploads.Event) (mtime : Nat) :
    (state.follow event mtime).passed = state.passed ∧
      (state.follow event mtime).answers = state.answers := by
  unfold State.follow
  split
  · exact ⟨rfl, rfl⟩
  · split <;> exact ⟨rfl, rfl⟩
  · exact ⟨rfl, rfl⟩

theorem commits_follow (event : Uploads.Event) (mtime : Nat) (hcommits : state.commits request ≠ none) :
    (state.follow event mtime).commits request ≠ none := by
  unfold State.follow
  split
  · exact hcommits
  · split
    · dsimp only
      rw [update_apply]
      split_ifs
      · simp
      · exact hcommits
    · exact hcommits
  · exact hcommits

theorem setAnswer_cases {answered : Nat} {answer answer' : Answer}
    (hanswer : (state.setAnswer answered answer).answers request = some answer') :
    (request = answered ∧ answer' = answer) ∨
      (request ≠ answered ∧ state.answers request = some answer') := by
  unfold State.setAnswer at hanswer
  dsimp only at hanswer
  rw [update_apply] at hanswer
  split_ifs at hanswer with hsame
  · exact .inl ⟨hsame, (Option.some.inj hanswer).symm⟩
  · exact .inr ⟨hsame, hanswer⟩

theorem Started.setAnswer (hstarted : Started state request) {answered : Nat} {answer : Answer}
    (hanswer : ∀ status, answer = .failed status → request = answered →
      status = .ioError ∨ (state.uploads.phases request).opened = false) :
    Started (state.setAnswer answered answer) request where
  waiting := hstarted.waiting
  refused status hstatus := by
    rcases setAnswer_cases hstatus with ⟨hsame, hfailed⟩ | ⟨-, hbefore⟩
    · exact hanswer status hfailed.symm hsame
    · exact hstarted.refused status hbefore

theorem Started.move (hwork : works request = .save body) (hstarted : Started state request)
    (hmove : Move works state event state') : Started state' request := by
  have hclosed (hidle : state.passed request = false) : (state.uploads.phases request).opened = false := by
    rw [hstarted.waiting hidle]
    rfl
  cases hmove with
  | read => exact ⟨hstarted.waiting, hstarted.refused⟩
  | misread _ hidle _ _ => exact hstarted.setAnswer fun _ _ hsame ↦ .inr (hclosed (hsame ▸ hidle))
  | conflict _ hidle _ => exact hstarted.setAnswer fun _ _ hsame ↦ .inr (hclosed (hsame ▸ hidle))
  | @passed saver _ _ _ _ _ hidle hanswers _ _ _ _ =>
    refine ⟨fun hpassed ↦ hstarted.waiting ?_, hstarted.refused⟩
    dsimp only at hpassed
    rw [update_apply] at hpassed
    split_ifs at hpassed
    exact hpassed
  | @refused refused _ status _ hpassed hanswers _ =>
    by_cases hsame : request = refused
    · subst hsame
      refine ⟨fun hidle ↦ absurd hidle (by simp [State.setAnswer, hpassed]), fun status _ ↦ .inr ?_⟩
      change ((state.uploads.setPhase request .refused).phases request).opened = false
      rw [setPhase_phases_self]
      rfl
    · have hphase :
          (state.uploads.setPhase refused .refused).phases request = state.uploads.phases request :=
        setPhase_phases_of_ne (fun hone ↦ hsame (Option.some.inj hone).symm) _
      refine ⟨fun hidle ↦ hphase.trans (hstarted.waiting hidle), fun status hstatus ↦ ?_⟩
      rcases setAnswer_cases hstatus with ⟨hone, -⟩ | ⟨-, hbefore⟩
      · exact absurd hone hsame
      · change status = .ioError ∨ ((state.uploads.setPhase refused .refused).phases request).opened = false
        rw [hphase]
        exact hstarted.refused status hbefore
  | @acted event mtime uploads hmay _ heffect =>
    obtain ⟨hpassed, hanswers⟩ : (state.follow event mtime).passed = state.passed ∧
        (state.follow event mtime).answers = state.answers :=
      follow_passed event mtime
    by_cases hactor : actor event = some request
    · obtain ⟨hready, hopen⟩ := mayAct_save hmay hactor hwork
      refine ⟨fun hidle ↦ ?_, fun status hstatus ↦ ?_⟩
      · rw [hpassed, hready] at hidle
        cases hidle
      · rw [hanswers, hopen] at hstatus
        cases hstatus
    · have hphase := heffect.phases_of_ne hactor
      have hwaiting (hidle : (state.follow event mtime).passed request = false) :=
        hphase.trans (hstarted.waiting (hpassed ▸ hidle))
      refine ⟨hwaiting, fun status hstatus ↦ ?_⟩
      rw [hphase]
      exact hstarted.refused status (hanswers ▸ hstatus)
  | answered _ _ hends =>
    refine hstarted.setAnswer fun status hfailed hsame ↦ ?_
    cases hends with
    | outOfPlace hphase =>
      rw [hsame, hphase]
      exact .inr rfl
    | failed => exact .inl (by simpa using hfailed.symm)
    | saved => cases hfailed

theorem opened_stopped (range : UploadRange) : (stopped range).opened := by
  rcases Uploads.stopped_leaves range with hleaves | hleaves <;> rw [hleaves] <;> rfl

/-- A step that changes the names or the files is one of a request that has opened the part. -/
theorem Effect.disk_or_opened {uploads uploads' : Uploads.State}
    {event : Uploads.Event} (heffect : Effect requests uploads event uploads')
    (hactor : actor event = some request) :
    uploads'.disk = uploads.disk ∨ (uploads'.phases request).opened := by
  cases heffect
  case discarded => cases hactor
  all_goals
    cases hactor
    simp only [setPhase_phases_self, Uploads.State.take]
  case refused | accepted | refuse | cancelled | finished | flushFailed | unpublished => exact .inl rfl
  case interrupted range _ _ _ => exact .inr (opened_stopped range)
  all_goals exact .inr rfl

theorem Effect.opened_of_opened {uploads uploads' : Uploads.State}
    {event : Uploads.Event} (heffect : Effect requests uploads event uploads')
    (hopened : (uploads.phases request).opened) : (uploads'.phases request).opened := by
  by_cases hactor : actor event = some request
  case neg => rw [heffect.phases_of_ne hactor, hopened]
  cases heffect
  case discarded => cases hactor
  all_goals
    obtain rfl := Option.some.inj hactor
    simp only [setPhase_phases_self, Uploads.State.take]
  case refused hphase | accepted hphase _ | refuse hphase =>
    rw [hphase] at hopened
    cases hopened
  case interrupted range _ _ _ => exact opened_stopped range
  case finished range _ _ =>
    split
    · rfl
    · exact opened_stopped range
  all_goals rfl

theorem Move.opened_of_opened (hmove : Move works state event state')
    (hopened : (state.uploads.phases request).opened) :
    (state'.uploads.phases request).opened := by
  cases hmove with
  | acted _ _ heffect => exact heffect.opened_of_opened hopened
  | @refused refused _ _ _ _ _ hclosed =>
    have hother : some refused ≠ some request := by
      rintro hsame
      rw [Option.some.inj hsame, hopened] at hclosed
      cases hclosed
    have hphase : (state.uploads.setPhase refused .refused).phases request = state.uploads.phases request :=
      setPhase_phases_of_ne hother .refused
    exact (congrArg Phase.opened hphase).trans hopened
  | _ => exact hopened

theorem Move.disk_or_opened (hmove : Move works state event state')
    (hrequest : event.request = some request) :
    state'.uploads.disk = state.uploads.disk ∨ (state'.uploads.phases request).opened := by
  cases hmove with
  | acted _ _ heffect => exact heffect.disk_or_opened hrequest
  | _ => exact .inl rfl

theorem run_opened {events : List Event} (hrun : Run (Step works) state events state')
    (hopened : (state.uploads.phases request).opened) :
    (state'.uploads.phases request).opened := by
  have hkeep (before : State) (event : Event) (after : State)
      (hbefore : (before.uploads.phases request).opened = true) (hstep : Step works before event after) :
      (after.uploads.phases request).opened = true := (move_of_step hstep).opened_of_opened hbefore
  exact hrun.preserves hkeep hopened

theorem run_started {events : List Event} (hrun : Run (Step works) {} events state)
    (hwork : works request = .save body) : Started state request := by
  have hkeep (before : State) (event : Event) (after : State) (hbefore : Started before request)
      (hstep : Step works before event after) : Started after request :=
    hbefore.move hwork (move_of_step hstep)
  exact hrun.preserves hkeep ⟨fun _ ↦ rfl, fun _ hstatus ↦ by cases hstatus⟩

theorem refused_keeps_disk {before after : List Event} {middle middle' : State} {status : FileStatus}
    (hwork : works request = .save body) (hrequest : event.request = some request)
    (hbefore : Run (Step works) {} before middle) (hstep : Step works middle event middle')
    (hafter : Run (Step works) middle' after state)
    (hanswer : state.answers request = some (.failed status)) (hstatus : httpStatusFor status = 409) :
    middle'.uploads.disk = middle.uploads.disk := by
  have hrun : Run (Step works) {} (before ++ event :: after) state := hbefore.append (.cons hstep hafter)
  have hclosed : (state.uploads.phases request).opened = false := by
    rcases (run_started hrun hwork).refused status hanswer with rfl | hclosed
    · cases hstatus
    · exact hclosed
  rcases (move_of_step hstep).disk_or_opened hrequest with hsame | hopened
  · exact hsame
  · rw [run_opened hafter hopened] at hclosed
    cases hclosed

end Versions

end DhcpServer.Files.TextSaves
