import DhcpServer.Files.SaveVersions

/-!
# What the check of the modification time protects

The comparison and the replacement of a save are apart, and nothing keeps others out in between: an upload
that publishes after the comparison is overwritten, and a writer that shares the part gets its bytes into
the saved file. As long as no one publishes between the comparison and the opening of the part, and no one
opens the part or writes to it from there on, a save replaces the version it has read.
-/

namespace DhcpServer.Files.TextSaves

open Library Function
open Uploads (Content Disk Handle Phase Request marks stopped)

section Safety

variable (works : Nat → Work)

def bytesOf (content : Content) : List (Option UInt8) :=
  content.map fun mark ↦ mark.bind fun place ↦ (works place.request).request.body[place.index]?

/-- A commit over the version with this modification time, or over no file, that has put the text in
place. -/
structure Commit.Keeps (reads : List Version) (text : Bytes) (mtime : Nat) (commit : Commit) : Prop where
  replaced : ∀ version, commit.replaced = some version → version.mtime = mtime
  read : ∀ version, commit.replaced = some version → ∀ read ∈ reads, read.mtime = mtime → read = version
  content : bytesOf works commit.content = text.map some

/-- Every save that is answered ok has replaced the version it has read, and every step on the way here of a
save that is answered 409 has left the names and files as they were. -/
structure EditorSafe (state : State) : Prop where
  saved : ∀ request body size after, works request = .save body →
    state.answers request = some (.saved size after) →
    ∃ save mtime commit, parseSave body = .ok save ∧ carried body = some mtime ∧
      state.commits request = some commit ∧ commit.Keeps works state.reads save.text mtime
  refused : ∀ request body status, works request = .save body →
    state.answers request = some (.failed status) → httpStatusFor status = 409 →
    ∀ before event after middle middle', event.request = some request →
      Run (Step works) {} before middle → Step works middle event middle' →
      Run (Step works) middle' after state → middle'.uploads.disk = middle.uploads.disk

/-- A save's look at the modification time does not fail. From there on no one else publishes until the save
has opened the part, and no one else opens the part or writes to it until the save has published it. -/
def Undisturbed (state : State) : Event → Prop
  | .save _ fails => fails = false
  | .act event _ => ∀ request, (works request).isSave = true → state.passed request = true →
    actor event ≠ some request →
      (beforeOpen (state.uploads.phases request) = true → state.publishedBy event = none) ∧
        (holdsPart (state.uploads.phases request) = true → writesPart event = false)
  | _ => True

variable {works} {state state' : State} {event : Event} {request : Nat} {body : Bytes}

structure SaveSound (state : State) (request : Nat) (body : Bytes) : Prop where
  way : state.passed request = true → ∃ save mtime, Carries body save mtime ∧
    Way state request save.text.length mtime (state.uploads.phases request)
  commit : ∀ commit, state.commits request = some commit → ∃ save mtime, Carries body save mtime ∧
    (∀ version, commit.replaced = some version → version.mtime = mtime) ∧
    commit.content = marks request 0 save.text.length
  saved : ∀ size after, state.answers request = some (.saved size after) → state.commits request ≠ none

theorem parseSave_error {answer : Answer} (hparse : parseSave body = .error answer) (size after : Nat) :
    answer ≠ .saved size after := by
  unfold parseSave at hparse
  split_ifs at hparse
  · obtain rfl := Except.error.inj hparse
    simp
  · obtain rfl := Except.error.inj hparse
    simp
  · split at hparse
    · obtain rfl := Except.error.inj hparse
      simp
    · split_ifs at hparse <;> obtain rfl := Except.error.inj hparse <;> simp

theorem Way.of_disk {length mtime : Nat} {phase : Phase} (hway : Way state request length mtime phase)
    (hdisk : state'.uploads.disk = state.uploads.disk) (hmtimes : state'.mtimes = state.mtimes)
    (hfound : state'.found = state.found) : Way state' request length mtime phase := by
  have hcurrent (version : Version) (hversion : state'.current = some version) :
      state.current = some version := by
    rw [State.current, hdisk, hmtimes] at hversion
    exact hversion
  refine hway.frame (congrFun hfound request) (fun _ ↦ hcurrent) fun _ file hpart ↦ ?_
  rw [hdisk] at hpart ⊢
  exact ⟨hpart, rfl, hcurrent⟩

theorem SaveSound.setAnswer (hsound : SaveSound state request body) {answered : Nat} {answer : Answer}
    (hanswer : ∀ size after, answer = .saved size after → request = answered →
      state.commits request ≠ none) : SaveSound (state.setAnswer answered answer) request body where
  way hpassed := by
    obtain ⟨save, mtime, hcarries, hway⟩ := hsound.way hpassed
    exact ⟨save, mtime, hcarries, hway.of_disk rfl rfl rfl⟩
  commit := hsound.commit
  saved size after hsaved := by
    rcases setAnswer_cases hsaved with ⟨hsame, hnow⟩ | ⟨-, hbefore⟩
    · exact hanswer size after hnow.symm hsame
    · exact hsound.saved size after hbefore

theorem way_of_passed (hrecorded : Recorded state) (hstarted : Started state request) {save : Save}
    {version : Version} (hidle : state.passed request = false) (hcarries : Carries body save version.mtime)
    (hread : version ∈ state.reads)
    (hsame : ∀ info, state.current = some info → save.clientMtime < 0 ∨ save.clientMtime = info.mtime) :
    Way state request save.text.length version.mtime (state.uploads.phases request) := by
  rw [hstarted.waiting hidle]
  intro info hinfo
  have hsmall : version.mtime < 2 ^ 31 := hrecorded.small version (hrecorded.reads version hread)
  have hclient : save.clientMtime = version.mtime :=
    clientMtime_of_carried hcarries.parse hcarries.carried hsmall
  rcases hsame info hinfo with hnegative | hequal
  · omega
  · omega

theorem SaveSound.published {event : Uploads.Event} {mtime : Nat} (hsound : SaveSound state request body)
    (hmay : mayAct works state event) (hwork : works request = .save body) {commit : Commit}
    (hcommit : (state.follow event mtime).commits request = some commit) :
    ∃ save mtime, Carries body save mtime ∧
      (∀ version, commit.replaced = some version → version.mtime = mtime) ∧
      commit.content = marks request 0 save.text.length := by
  cases hpublished : state.publishedBy event with
  | none =>
    rw [(follow_of_none hpublished mtime).2.2] at hcommit
    exact hsound.commit commit hcommit
  | some file =>
    obtain ⟨publisher, rfl, hphase, hfinal, hpart⟩ := publishedBy_eq_some.mp hpublished
    rw [follow_publish hpublished] at hcommit
    dsimp only at hcommit
    rw [update_apply] at hcommit
    split_ifs at hcommit with hsame
    · subst hsame
      cases hcommit
      obtain ⟨save, carriedMtime, hcarries, hway⟩ := hsound.way (mayAct_save hmay rfl hwork).1
      rw [hphase] at hway
      obtain ⟨hcontent, hreplaced⟩ := hway file hpart
      exact ⟨save, carriedMtime, hcarries, hreplaced, hcontent⟩
    · exact hsound.commit commit hcommit

theorem SaveSound.move (hwork : works request = .save body) (hrecorded : Recorded state)
    (hstarted : Started state request) (hcalm : Undisturbed works state event)
    (hsound : SaveSound state request body) (hmove : Move works state event state') :
    SaveSound state' request body := by
  cases hmove with
  | read =>
    refine ⟨fun hpassed ↦ ?_, hsound.commit, hsound.saved⟩
    obtain ⟨save, mtime, hcarries, hway⟩ := hsound.way hpassed
    exact ⟨save, mtime, hcarries, hway.of_disk rfl rfl rfl⟩
  | misread _ _ _ hparse =>
    exact hsound.setAnswer fun size after hsaved _ ↦ absurd hsaved (parseSave_error hparse size after)
  | conflict _ _ _ => exact hsound.setAnswer fun _ _ hsaved _ ↦ by cases hsaved
  | @passed saver body' fails save version hwork' hidle hanswers hparse hread hcarried hinfo =>
    refine ⟨fun hpassed ↦ ?_, hsound.commit, hsound.saved⟩
    by_cases hsame : request = saver
    · subst hsame
      obtain rfl : body' = body := Work.save.inj (hwork'.symm.trans hwork)
      have hcarries : Carries body' save version.mtime := ⟨hparse, hcarried⟩
      have hway := way_of_passed hrecorded hstarted hidle hcarries hread (hinfo hcalm)
      exact ⟨save, version.mtime, hcarries, hway.of_disk rfl rfl rfl⟩
    · dsimp only at hpassed
      rw [update_of_ne hsame] at hpassed
      obtain ⟨save, mtime, hcarries, hway⟩ := hsound.way hpassed
      exact ⟨save, mtime, hcarries, hway.of_disk rfl rfl rfl⟩
  | @refused refused _ status hwork' hpassed hanswers hclosed =>
    refine ⟨fun hready ↦ ?_, hsound.commit, fun size after hsaved ↦ ?_⟩
    · obtain ⟨save, mtime, hcarries, hway⟩ := hsound.way hready
      refine ⟨save, mtime, hcarries, ?_⟩
      have hphases : ({ state with uploads := state.uploads.setPhase refused .refused }.setAnswer refused
          (.failed status)).uploads.phases = update state.uploads.phases refused .refused := rfl
      rw [hphases, update_apply]
      split_ifs
      · trivial
      · exact hway.of_disk rfl rfl rfl
    · rcases setAnswer_cases hsaved with ⟨-, hnow⟩ | ⟨-, hbefore⟩
      · cases hnow
      · exact hsound.saved size after hbefore
  | @acted event mtime uploads hmay _ heffect =>
    obtain ⟨hpassed, hanswers⟩ : (state.follow event mtime).passed = state.passed ∧
        (state.follow event mtime).answers = state.answers :=
      follow_passed event mtime
    have hcommit (commit : Commit) (hmade : (state.follow event mtime).commits request = some commit) :=
      hsound.published hmay hwork hmade
    refine ⟨fun hready ↦ ?_, hcommit, fun size after hsaved ↦ ?_⟩
    · rw [hpassed] at hready
      obtain ⟨save, carriedMtime, hcarries, hway⟩ := hsound.way hready
      refine ⟨save, carriedMtime, hcarries, ?_⟩
      by_cases hactor : actor event = some request
      · exact hway.of_own mtime (request_of_carries hcarries hwork) heffect hactor
      · have hsave : (works request).isSave = true := by rw [hwork]; rfl
        obtain ⟨hpublish, hwrite⟩ := hcalm request hsave hready hactor
        rw [heffect.phases_of_ne hactor]
        exact hway.of_other heffect hactor hpublish hwrite mtime
    · rw [hanswers] at hsaved
      exact commits_follow event mtime (hsound.saved size after hsaved)
  | answered _ _ hends =>
    refine hsound.setAnswer fun size after hsaved hsame ↦ ?_
    cases hends with
    | saved _ _ _ hcommits => exact hsame ▸ hcommits
    | _ => cases hsaved

structure Sound (works : Nat → Work) (state : State) : Prop where
  recorded : Recorded state
  started : ∀ request body, works request = .save body → Started state request
  saves : ∀ request body, works request = .save body → SaveSound state request body

theorem Sound.move (hsound : Sound works state) (hcalm : Undisturbed works state event)
    (hmove : Move works state event state') : Sound works state' where
  recorded := hsound.recorded.move hmove
  started request body hwork := (hsound.started request body hwork).move hwork hmove
  saves request body hwork :=
    (hsound.saves request body hwork).move hwork hsound.recorded (hsound.started request body hwork) hcalm
      hmove

theorem sound_start : Sound works {} where
  recorded := by constructor <;> simp [State.current]
  started _ _ _ := ⟨fun _ ↦ rfl, fun _ hstatus ↦ by cases hstatus⟩
  saves _ _ _ := by constructor <;> simp

theorem bytesOf_marks {text : Bytes} (hrequest : (works request).request = { body := text }) :
    bytesOf works (marks request 0 text.length) = text.map some := by
  apply List.ext_getElem
  · simp [bytesOf, marks]
  · intro index hleft hright
    simp [bytesOf, marks, hrequest]

theorem Sound.keeps (hsound : Sound works state) (hwork : works request = .save body) {size after : Nat}
    (hsaved : state.answers request = some (.saved size after)) :
    ∃ save mtime commit, parseSave body = .ok save ∧ carried body = some mtime ∧
      state.commits request = some commit ∧ commit.Keeps works state.reads save.text mtime := by
  have hsave := hsound.saves request body hwork
  obtain ⟨commit, hcommit⟩ := Option.ne_none_iff_exists'.mp (hsave.saved size after hsaved)
  obtain ⟨save, mtime, hcarries, hreplaced, hcontent⟩ := hsave.commit commit hcommit
  refine ⟨save, mtime, commit, hcarries.parse, hcarries.carried, hcommit, hreplaced, ?_, ?_⟩
  · intro version hversion read hread hmtime
    have hread' := hsound.recorded.reads read hread
    have hversion' := hsound.recorded.replaced request commit version hcommit hversion
    exact hsound.recorded.eq_of_mtime hread' hversion' (hmtime.trans (hreplaced version hversion).symm)
  · rw [hcontent]
    exact bytesOf_marks (request_of_carries hcarries hwork)

/-- As long as no one publishes between a save's look at the modification time and its opening of the part,
and no one else has the part open from there on, the editor overwrites nothing but what it has read. -/
theorem editor_is_safe (works : Nat → Work) {events : List Event} {state : State}
    (hrun : Run (fun state event state' ↦ Undisturbed works state event ∧ Step works state event state')
      {} events state) : EditorSafe works state where
  saved request body size after hwork hsaved := by
    have hkeep (before : State) (event : Event) (after : State) (hsound : Sound works before)
        (hstep : Undisturbed works before event ∧ Step works before event after) : Sound works after :=
      hsound.move hstep.1 (move_of_step hstep.2)
    exact (hrun.preserves hkeep sound_start).keeps hwork hsaved
  refused request body status hwork hanswer hstatus before event after middle middle' hrequest hbefore hstep
      hafter := refused_keeps_disk hwork hrequest hbefore hstep hafter hanswer hstatus

end Safety

def sampleBody : Bytes := ascii "\x7b\"volume\":\"fat\",\"path\":\"/n.txt\",\"mtime\":1,\"text\":\"b\"\x7d"

def sampleWork : Nat → Work
  | 0 => .save sampleBody
  | _ => .upload { body := ascii "a" }

def sampleUpload (request mtime : Nat) : List Event :=
  [.act (.check request) 0, .act (.openPart request) 0, .act (.receive request 1) 0, .act (.finish request) 0,
    .act (.removeFinal request false) 0, .act (.publish request false) mtime]

def sampleSave : List Event :=
  sampleUpload 1 1 ++ [.read, .save 0 false] ++ sampleUpload 0 2 ++ [.answer 0 false]

/-- The save is on its own from its look at the modification time on. -/
def sampleCalm (state : State) : Event → Bool
  | .save _ fails => !fails
  | .act event _ => actor event = some 0 || !state.passed 0
  | _ => true

theorem sampleSave_run : ∃ state : State, state.answers 0 = some (.saved 1 2) ∧ Run
    (fun state event state' ↦ Undisturbed sampleWork state event ∧ Step sampleWork state event state') {}
      sampleSave state := by
  have hsteps : (steps (fun state event ↦
      if sampleCalm state event then step sampleWork state event else none) {} sampleSave).any (fun state ↦
        state.answers 0 = some (.saved 1 2)) = true := by
    decide
  obtain ⟨state, hstate, hanswer⟩ := (Option.any_eq_true _ _).mp hsteps
  have hrun := run_of_allowedSteps hstate
  refine ⟨state, by simpa using hanswer, hrun.mono fun before event after hstep ↦ ⟨?_, hstep.2⟩⟩
  cases event with
  | save saver fails =>
    have hsucceeds : fails = false := by simpa [sampleCalm] using hstep.1
    exact hsucceeds
  | act event mtime =>
    intro request hsave hpassed hother
    -- the first task is the only save
    obtain rfl : request = 0 := by
      cases request with
      | zero => rfl
      | succ _ => cases hsave
    have hmay : actor event = some 0 ∨ before.passed 0 = false := by simpa [sampleCalm] using hstep.1
    rcases hmay with hactor | hidle
    · exact absurd hactor hother
    · rw [hpassed] at hidle
      cases hidle
  | _ => trivial

theorem undisturbed_save_is_safe : ∃ state : State, state.answers 0 = some (.saved 1 2) ∧
    EditorSafe sampleWork state := by
  obtain ⟨state, hanswer, hrun⟩ := sampleSave_run
  exact ⟨state, hanswer, editor_is_safe sampleWork hrun⟩

/-- The second upload publishes between the comparison and the opening of the part. -/
def sampleOvertaken : List Event :=
  sampleUpload 1 1 ++ [.read, .save 0 false] ++ sampleUpload 2 2 ++ sampleUpload 0 3 ++ [.answer 0 false]

theorem overtaken_save_overwrites : ¬ ∀ (works : Nat → Work) (events : List Event) (state : State),
    Run (Step works) {} events state → EditorSafe works state := by
  intro hsafe
  have hsteps : (steps (step sampleWork) {} sampleOvertaken).any (fun state ↦
      state.answers 0 = some (.saved 1 3) ∧
        state.commits 0 = some ⟨some ⟨1, 2⟩, [some ⟨0, 0⟩]⟩) = true := by
    decide
  obtain ⟨state, hrun, hstate⟩ := exists_run_of_any hsteps
  obtain ⟨hanswer, hcommit⟩ := of_decide_eq_true hstate
  obtain ⟨save, mtime, commit, -, hcarried, hmade, hkeeps⟩ :=
    (hsafe sampleWork _ state hrun).saved 0 sampleBody 1 3 rfl hanswer
  obtain rfl := Option.some.inj (hcommit.symm.trans hmade)
  have hmtime : carried sampleBody = some 1 := by decide
  obtain rfl := Option.some.inj (hmtime.symm.trans hcarried)
  cases hkeeps.replaced ⟨1, 2⟩ rfl

end DhcpServer.Files.TextSaves
