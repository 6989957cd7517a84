import DhcpServer.Core.LogDates

/-!
# The size and the lines of a log

What the writer promises of its live file: that it stays within its cap but for a single long line, that
it rotates where a line finds no room and only there, and that it knows how many lines are in it. Each
promise has its own conditions, and each step is asked for those of all three.
-/

namespace DhcpServer.Core.LogLines

open Library LogFileFormat LogDates
open LogFileWriter hiding Event next start
open List Option

def Counted (state : State) : Prop := state.lines = state.liveText.count newline

def Rotates (before after : State) : Prop :=
  before.archives < after.archives ∨ before.carryOvers < after.carryOvers

/-- The card takes an archive, and there is a stamped line in the live file. -/
def Usable (config : Config) (env : Environment) (dated : Dated) : Prop :=
  env.cardMounted = true ∧ Archives config env dated.state ∧ dates dated.marks ≠ []

def Exceeds (state : State) (line : Bytes) : Prop := state.maxBytes < state.liveSize + (line.length + 1)

/-- The live file is over its cap only with a line that is, and rotates for one that does not fit. -/
structure KeepsCap (before after : State) (line : Bytes) : Prop where
  within : after.maxBytes < after.liveSize → after.maxBytes < line.length + 1
  rotates : Rotates before after ↔ Exceeds before line

def KeepsSize (config : Config) (dated : Dated) (event : Event) : Prop :=
  match event with
  | .append line stamp env =>
    Usable config env dated → KeepsCap dated.state (append config env dated.state line stamp).1 line
  | .setMaxBytes _ _ | .restart _ => True

/-- A line that does not fit finds the folder, a day to name the archive by, and a file that can be
emptied; a line that fits exactly finds no such day. -/
def RoomFor (config : Config) (env : Environment) (state : State) (line : Bytes) : Prop :=
  (Exceeds state line → ensureLiveDirectory config env = true ∧ state.firstRealSeen = true ∧
      env.freshOpens = true) ∧
    (state.liveSize + (line.length + 1) = state.maxBytes →
      ¬(ensureLiveDirectory config env = true ∧ state.firstRealSeen = true))

/-- What a carry-over does not bring into the file holds no newline. -/
def CarriesLines (env : Environment) (state : State) : Prop :=
  env.freshOpens = true →
    ∀ count ∈ env.freshTakes, newline ∉ (logTail (readLive env state) kLogFileKeepLines).drop count

def CountsRotation (config : Config) (env : Environment) (state : State) (incomingBytes : Nat) : Prop :=
  Due state incomingBytes → if env.cardMounted = false then CarriesLines env state
    else if Archives config env state then env.freshOpens = true ∨ newline ∉ state.liveText
    else kLogFileMaxArchiveAttempts ≤ state.failedAttempts + 1 → CarriesLines env state

def CountsWrite (env : Environment) (line : Bytes) : Prop :=
  newline ∉ line ∧ (env.appendOpens = true → ∀ count ∈ env.appendTakes, count ≤ line.length)

def SafeStep (config : Config) (dated : Dated) (event : Event) : Prop :=
  match event with
  | .append line _ env =>
    (Usable config env dated → RoomFor config env dated.state line) ∧
      (ensureLiveDirectory config env = true →
        CountsRotation config env dated.state (line ++ [newline]).length ∧ CountsWrite env line)
  | .setMaxBytes bytes env =>
    bytes < dated.state.liveSize → CountsRotation config env { dated.state with maxBytes := bytes } 0
  | .restart _ => newline ∉ dated.state.liveText

variable {config : Config} {env : Environment} {state before after : State} {dated : Dated} {marks : Marks}
  {line : Bytes} {stamp : LogStamp} {incomingBytes : Nat} {event : Event}

theorem Counted.rotate (hcounted : Counted before) (hsafe : CountsRotation config env before incomingBytes)
    (hrotated : Rotated config env before incomingBytes after) : Counted after := by
  cases hrotated with
  | fits hdue hsame => rwa [hsame]
  | carried hdue hcard hcarried =>
    have hlines : CarriesLines env before := asked_of_carried (hsafe hdue) hcard
    unfold Counted at hcounted ⊢
    rw [hcarried.lines, State.liveText, hcarried.live]
    cases hopens : env.freshOpens with
    | false => exact hcounted
    | true =>
      simp only [if_true, getD_some]
      cases htakes : env.freshTakes with
      | none => rfl
      | some count =>
        have hcut := count_eq_zero_of_not_mem (hlines hopens count htakes)
        have hwhole := congrArg (List.count newline)
          (take_append_drop count (logTail (readLive env before) kLogFileKeepLines))
        rw [count_append, hcut, Nat.add_zero] at hwhole
        exact hwhole.symm
  | emptied hdue hcard harchives hemptied =>
    have hfresh : env.freshOpens = true ∨ newline ∉ before.liveText :=
      asked_of_emptied (hsafe hdue) hcard harchives
    unfold Counted
    rw [hemptied.lines, State.liveText, hemptied.live]
    cases hopens : env.freshOpens with
    | true => rfl
    | false =>
      have hnone := hfresh.resolve_left (by simp [hopens])
      exact (count_eq_zero_of_not_mem hnone).symm
  | refused hdue hcard harchives hattempts hkept =>
    unfold Counted at hcounted ⊢
    rwa [hkept.lines, State.liveText, hkept.live]

theorem Counted.appendText (hcounted : Counted after) (hsafe : CountsWrite env line) (stamp : LogStamp) :
    Counted (appendText env after (line ++ [newline]) stamp).1 := by
  obtain ⟨hline, htakes⟩ := hsafe
  unfold Counted at hcounted ⊢
  unfold LogFileWriter.appendText
  cases hopens : env.appendOpens with
  | false => exact hcounted
  | true =>
    rw [if_neg (by simp)]
    cases hcount : env.appendTakes with
    | none =>
      have hone : (line ++ [newline]).count newline = 1 := by
        rw [count_append, count_eq_zero_of_not_mem hline, count_singleton_self]
      obtain ⟨firstReal, firstRealSeen, lastReal, hstamped⟩ := exists_rememberStamp_eq
        { after with live := some (after.liveText ++ (line ++ [newline])), lines := after.lines + 1 } stamp
      simp only [hstamped]
      simp [State.liveText, hcounted, hone]
    | some count =>
      have hshort := htakes hopens count hcount
      have hnone : ((line ++ [newline]).take count).count newline = 0 := by
        rw [take_append_of_le_length hshort]
        exact count_eq_zero_of_not_mem fun hmem ↦ hline (mem_of_mem_take hmem)
      simp only [State.liveText, getD_some, count_append, hnone, Nat.add_zero]
      exact hcounted

theorem Counted.next (hcounted : Counted dated.state) (hsafe : SafeStep config dated event) :
    Counted (next config dated event).state := by
  have hstepped := next_stepped config dated event
  generalize LogDates.next config dated event = after at hstepped ⊢
  cases hstepped with
  | refused => exact hcounted
  | appended hfolder hrotated =>
    obtain ⟨hrotation, hwrite⟩ := hsafe.2 hfolder
    exact (hcounted.rotate hrotation hrotated).appendText hwrite _
  | capped => exact hcounted
  | @lowered bytes env after hlarge hrotated =>
    have hcapped : Counted { dated.state with maxBytes := bytes } := hcounted
    exact hcapped.rotate (hsafe hlarge) hrotated
  | restarted => exact (count_eq_zero_of_not_mem hsafe).symm

theorem appendText_grows (env : Environment) (state : State) (text : Bytes) (stamp : LogStamp) :
    (appendText env state text stamp).1.liveSize ≤ state.liveSize + text.length ∧
      (appendText env state text stamp).1.maxBytes = state.maxBytes ∧
      (appendText env state text stamp).1.archives = state.archives ∧
      (appendText env state text stamp).1.carryOvers = state.carryOvers := by
  unfold LogFileWriter.appendText
  split_ifs
  · exact ⟨Nat.le_add_right _ _, rfl, rfl, rfl⟩
  · cases env.appendTakes with
    | none =>
      obtain ⟨firstReal, firstRealSeen, lastReal, hstamped⟩ := exists_rememberStamp_eq
        { state with live := some (state.liveText ++ text), lines := state.lines + 1 } stamp
      simp only [hstamped]
      exact ⟨by simp [State.liveSize, State.liveText], trivial, trivial, trivial⟩
    | some count =>
      refine ⟨?_, rfl, rfl, rfl⟩
      have hshort := length_take_le' count text
      simp only [State.liveSize, State.liveText, getD_some, length_append]
      exact Nat.add_le_add_left hshort _

theorem not_rotates_of_same (hcarryOvers : after.carryOvers = before.carryOvers)
    (harchives : after.archives = before.archives) : ¬Rotates before after := by
  rw [Rotates, hcarryOvers, harchives]
  exact not_or.mpr ⟨lt_irrefl _, lt_irrefl _⟩

theorem RoomFor.keepsCap (hroom : RoomFor config env dated.state line) (husable : Usable config env dated)
    (stamp : LogStamp) : KeepsCap dated.state (append config env dated.state line stamp).1 line := by
  obtain ⟨hexceeds, hexact⟩ := hroom
  obtain ⟨hcard, harchives, -⟩ := husable
  cases hfolder : ensureLiveDirectory config env with
  | false =>
    have hfits : ¬Exceeds dated.state line := fun hlarge ↦
      Bool.false_ne_true (hfolder.symm.trans (hexceeds hlarge).1)
    rw [append, if_pos hfolder]
    refine ⟨fun hover ↦ ?_, iff_of_false (not_rotates_of_same rfl rfl) hfits⟩
    unfold Exceeds at hfits
    dsimp only at hover ⊢
    omega
  | true =>
    have hrotated := rotateIfNeeded_rotated config env dated.state (line ++ [newline]).length
    have hlength : (line ++ [newline]).length = line.length + 1 := by simp
    rw [append, if_neg (by simp [hfolder])]
    generalize rotateIfNeeded config env dated.state (line ++ [newline]).length = rotated at hrotated
    obtain ⟨hsize, hmax, hcount, hcarry⟩ := appendText_grows env rotated (line ++ [newline]) stamp
    rw [hlength] at hrotated hsize
    cases hrotated with
    | fits hdue hsame =>
      subst hsame
      have hfits : ¬Exceeds dated.state line := fun hlarge ↦
        hdue ⟨Nat.lt_succ_of_lt hlarge, (hexceeds hlarge).2.1⟩
      refine ⟨fun hover ↦ ?_, iff_of_false (not_rotates_of_same hcarry hcount) hfits⟩
      unfold Exceeds at hfits
      omega
    | carried hdue hfails hcarried =>
      rcases hfails with hnone | ⟨-, hfails, -⟩
      · exact absurd (hcard.symm.trans hnone) (by decide)
      · exact absurd harchives hfails
    | emptied hdue _ _ hemptied =>
      have hlarge : Exceeds dated.state line := by
        have hdueBytes := hdue.1
        have hequal : dated.state.liveSize + (line.length + 1) ≠ dated.state.maxBytes :=
          fun hsame ↦ hexact hsame ⟨hfolder, hdue.2⟩
        unfold Exceeds
        omega
      have hempty : rotated.liveSize = 0 := by
        rw [State.liveSize, State.liveText, hemptied.live, if_pos (hexceeds hlarge).2.2]
        rfl
      refine ⟨fun hover ↦ by omega, iff_of_true (.inl ?_) hlarge⟩
      rw [hcount, hemptied.archives]
      exact Nat.lt_succ_self _
    | refused hdue _ hfails hattempts hkept => exact absurd harchives hfails

/-- In every run whose steps are safe, over a live file without lines, the writer knows the lines of its
file, and the next safe append keeps to the cap and rotates where it must. -/
theorem log_keeps_cap_and_lines {live : Option Bytes} {card : Card} {maxBytes : Nat} {last : Dated}
    {events : List Event} (hnone : newline ∉ live.getD [])
    (hrun : Run (fun dated event dated' ↦ SafeStep config dated event ∧ dated' = next config dated event)
      (start live card maxBytes marks) events last) :
    Counted last.state ∧ ∀ event, SafeStep config last event → KeepsSize config last event := by
  have hkeep : ∀ dated event dated', Counted dated.state →
      SafeStep config dated event ∧ dated' = next config dated event → Counted dated'.state := by
    rintro dated event dated' hcounted ⟨hsafe, rfl⟩
    exact hcounted.next hsafe
  refine ⟨hrun.preserves hkeep (count_eq_zero_of_not_mem hnone).symm, fun event hsafe ↦ ?_⟩
  cases event with
  | append line stamp env => exact fun husable ↦ (hsafe.1 husable).keepsCap husable stamp
  | setMaxBytes bytes env => trivial
  | restart maxBytes => trivial

instance (config : Config) (env : Environment) (dated : Dated) : Decidable (Usable config env dated) :=
  inferInstanceAs (Decidable (_ ∧ _ ∧ _))

instance (config : Config) (env : Environment) (state : State) (line : Bytes) :
    Decidable (RoomFor config env state line) := by
  unfold RoomFor Exceeds
  infer_instance

instance (config : Config) (env : Environment) (state : State) (incomingBytes : Nat) :
    Decidable (CountsRotation config env state incomingBytes) := by
  unfold CountsRotation CarriesLines
  infer_instance

instance (env : Environment) (line : Bytes) : Decidable (CountsWrite env line) :=
  inferInstanceAs (Decidable (_ ∧ _))

instance (config : Config) (dated : Dated) (event : Event) : Decidable (SafeStep config dated event) :=
  match event with
  | .append line _ env =>
    inferInstanceAs (Decidable ((Usable config env dated → RoomFor config env dated.state line) ∧
      (ensureLiveDirectory config env = true →
        CountsRotation config env dated.state (line ++ [newline]).length ∧ CountsWrite env line)))
  | .setMaxBytes bytes env =>
    inferInstanceAs (Decidable (bytes < dated.state.liveSize →
      CountsRotation config env { dated.state with maxBytes := bytes } 0))
  | .restart _ => inferInstanceAs (Decidable (newline ∉ dated.state.liveText))

/-- Two lines of five bytes fit under a cap of twelve, and the third is written into an empty file. -/
theorem log_keeps_cap_and_lines_of_two_days :
    Counted (twoDays.foldl (next sampleConfig) (start none ∅ 12 [])).state ∧
      KeepsSize sampleConfig (twoDays.foldl (next sampleConfig) (start none ∅ 12 []))
        (lineOf 13 readyCard) := by
  have hsafe : AllowedAlong (next sampleConfig) (SafeStep sampleConfig) (start none ∅ 12 []) twoDays := by
    decide +kernel
  have hkeeps := log_keeps_cap_and_lines (by simp) hsafe.run
  exact ⟨hkeeps.1, hkeeps.2 (lineOf 13 readyCard) (by decide +kernel)⟩

/-- The second line fills a cap of ten exactly, and the first is archived for it; and after a restart the
line in the file is not counted. -/
theorem log_rotates_early_and_miscounts :
    ¬KeepsSize sampleConfig ([lineOf 11 readyCard].foldl (next sampleConfig) (start none ∅ 10 []))
        (lineOf 12 readyCard) ∧
      ¬Counted ([lineOf 11 readyCard, .restart 12].foldl (next sampleConfig) (start none ∅ 12 [])).state := by
  refine ⟨fun hkeeps ↦ ?_, by unfold Counted; decide +kernel⟩
  have hrotates := (hkeeps (by decide +kernel)).rotates
  unfold Rotates Exceeds at hrotates
  exact absurd (hrotates.mp (by decide +kernel)) (by decide +kernel)

end DhcpServer.Core.LogLines
