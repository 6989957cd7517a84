import DhcpServer.Core.LogFileWriter
import Mathlib.Data.List.ReduceOption

/-!
# The days an archive is named by

A writer remembers the first and the last day it has written, and an archive is named by them. Beside
the writer goes what the live file holds: for every byte the day of the line that it belongs to, where
the clock was set. A carried tail, a file that was not emptied, a line that was written and not reported,
and a restart each change one without the other.
-/

namespace DhcpServer.Core.LogDates

open Library LogFileFormat LogFileWriter List Option

/-! ## What the live file holds -/

/-- For each byte of a text the day of its line, if the line has one. -/
abbrev Marks := List (Option LogDate)

def mark (stamp : LogStamp) : Option LogDate := if stamp.clockSet then some stamp.date else none

/-- The days of the stamped lines, in their order; a line gives its day once for each byte. -/
def dates (marks : Marks) : List LogDate := marks.reduceOption

def taken {α : Type} (count : Option Nat) (items : List α) : List α :=
  match count with
  | none => items
  | some count => items.take count

/-- The marks of a tail. A newline that the tail adds belongs to the line it ends. -/
def tailMarks (text : Bytes) (marks : Marks) (lines : Nat) : Marks :=
  let kept := logTail text lines
  if kept = [] then []
  else if text.getLast? = some newline then marks.drop (text.length - kept.length)
  else marks.drop (text.length + 1 - kept.length) ++ [marks.getLast?.join]

structure Dated where
  state : State
  marks : Marks

def carriedMarks (env : Environment) (dated : Dated) : Marks :=
  if env.freshOpens = false then dated.marks
  else
    taken env.freshTakes
      (if env.readOpens then tailMarks dated.state.liveText dated.marks kLogFileKeepLines else [])

def rotatedMarks (env : Environment) (dated : Dated) (after : State) : Marks :=
  if dated.state.carryOvers < after.carryOvers then carriedMarks env dated
  else if dated.state.archives < after.archives ∧ env.freshOpens then []
  else dated.marks

def appendedMarks (env : Environment) (text : Bytes) (stamp : LogStamp) (marks : Marks) : Marks :=
  if env.appendOpens = false then marks
  else marks ++ List.replicate (taken env.appendTakes text).length (mark stamp)

inductive Event
  | append (line : Bytes) (stamp : LogStamp) (env : Environment)
  | setMaxBytes (bytes : Nat) (env : Environment)
  /-- a new writer over the live file -/
  | restart (maxBytes : Nat)

def opened (live : Option Bytes) (card : Card) (maxBytes : Nat) : State :=
  (LogFileWriter.start live card maxBytes).state

def next (config : Config) (dated : Dated) (event : Event) : Dated :=
  match event with
  | .append line stamp env =>
    if ensureLiveDirectory config env = false then dated
    else
      let rotated := rotateIfNeeded config env dated.state (line ++ [newline]).length
      ⟨(append config env dated.state line stamp).1,
        appendedMarks env (line ++ [newline]) stamp (rotatedMarks env dated rotated)⟩
  | .setMaxBytes bytes env =>
    let after := setMaxBytes config env dated.state bytes
    ⟨after, rotatedMarks env dated after⟩
  | .restart maxBytes => ⟨opened dated.state.live dated.state.card maxBytes, dated.marks⟩

/-- The incoming bytes find no room, and the writer has a day to name an archive by. -/
def Due (state : State) (incomingBytes : Nat) : Prop :=
  state.maxBytes < state.liveSize + incomingBytes + 1 ∧ state.firstRealSeen = true

instance (state : State) (incomingBytes : Nat) : Decidable (Due state incomingBytes) :=
  inferInstanceAs (Decidable (_ ∧ _))

/-- The state in which an event calls `rotateIfNeeded`, and the bytes it calls it for. -/
def rotation (config : Config) (state : State) (event : Event) : Option (Environment × State × Nat) :=
  match event with
  | .append line _ env =>
    if ensureLiveDirectory config env = false then none
    else some (env, state, (line ++ [newline]).length)
  | .setMaxBytes bytes env =>
    if bytes < state.liveSize then some (env, { state with maxBytes := bytes }, 0) else none
  | .restart _ => none

/-- The days `archiveToCard` is called with on the way through an event. -/
def namedDays (config : Config) (state : State) (event : Event) : Option (LogDate × LogDate) :=
  match rotation config state event with
  | none => none
  | some (env, before, incomingBytes) =>
    if Due before incomingBytes ∧ env.cardMounted then some (before.firstReal, before.lastReal) else none

/-- The name of an archive is the first and the last day in the live file. -/
def TellsTruth (config : Config) (dated : Dated) (event : Event) : Prop :=
  ∀ first last, namedDays config dated.state event = some (first, last) →
    (dates dated.marks).head? = some first ∧ (dates dated.marks).getLast? = some last

def Archives (config : Config) (env : Environment) (state : State) : Prop :=
  (openArchive config env state state.range).isSome = true ∧ env.cardTakes = none

instance (config : Config) (env : Environment) (state : State) : Decidable (Archives config env state) :=
  inferInstanceAs (Decidable (_ ∧ _))

/-- What stays in the live file begins and ends with the last day. -/
def KeepsLastDay (env : Environment) (dated : Dated) : Prop :=
  (dates (carriedMarks env dated)).head? = some dated.state.lastReal ∧
    (dates (carriedMarks env dated)).getLast? = some dated.state.lastReal

/-- A carry-over leaves lines of the last day only, and an archive an empty file. -/
def SafeRotation (config : Config) (env : Environment) (dated : Dated) (incomingBytes : Nat) : Prop :=
  Due dated.state incomingBytes → if env.cardMounted = false then KeepsLastDay env dated
    else if Archives config env dated.state then env.freshOpens = true
    else kLogFileMaxArchiveAttempts ≤ dated.state.failedAttempts + 1 → KeepsLastDay env dated

/-- A line of which some is written and not all reported is without a stamp, or of the day of the last
line, which is still in the file. -/
def SafeWrite (config : Config) (env : Environment) (state : State) (text : Bytes) (stamp : LogStamp) :
    Prop :=
  ∀ count ∈ env.appendTakes, env.appendOpens = true → 0 < count → stamp.clockSet = true →
    state.firstRealSeen = true ∧ state.lastReal = stamp.date ∧
      ¬(Due state text.length ∧ env.cardMounted = true ∧ Archives config env state)

def SafeStep (config : Config) (dated : Dated) (event : Event) : Prop :=
  match event with
  | .append line stamp env =>
    ensureLiveDirectory config env = true → SafeRotation config env dated (line ++ [newline]).length ∧
        SafeWrite config env dated.state (line ++ [newline]) stamp
  | .setMaxBytes bytes env =>
    bytes < dated.state.liveSize →
      SafeRotation config env ⟨{ dated.state with maxBytes := bytes }, dated.marks⟩ 0
  | .restart _ => dates dated.marks = []

/-! ## What a rotation does -/

variable {config : Config} {env : Environment} {state before after : State} {dated : Dated} {marks : Marks}
  {text line : Bytes} {stamp : LogStamp} {incomingBytes bytes : Nat}

structure Kept (before after : State) : Prop where
  live : after.live = before.live
  lines : after.lines = before.lines
  seen : after.firstRealSeen = before.firstRealSeen
  firstReal : after.firstReal = before.firstReal
  lastReal : after.lastReal = before.lastReal
  carryOvers : after.carryOvers = before.carryOvers
  archives : after.archives = before.archives
  maxBytes : after.maxBytes = before.maxBytes

structure Carried (env : Environment) (before after : State) : Prop where
  live : after.live =
    if env.freshOpens then some (taken env.freshTakes (logTail (readLive env before) kLogFileKeepLines))
    else before.live
  lines : after.lines =
    if env.freshOpens then (logTail (readLive env before) kLogFileKeepLines).count newline else before.lines
  seen : after.firstRealSeen = before.firstRealSeen
  firstReal : after.firstReal = before.lastReal
  lastReal : after.lastReal = before.lastReal
  carryOvers : after.carryOvers = before.carryOvers + 1
  archives : after.archives = before.archives
  maxBytes : after.maxBytes = before.maxBytes

structure Emptied (env : Environment) (before after : State) : Prop where
  live : after.live = if env.freshOpens then some [] else before.live
  lines : after.lines = 0
  seen : after.firstRealSeen = false
  carryOvers : after.carryOvers = before.carryOvers
  archives : after.archives = before.archives + 1
  maxBytes : after.maxBytes = before.maxBytes

/-- The four ways of `rotateIfNeeded`, with what leads to them. -/
inductive Rotated (config : Config) (env : Environment) (before : State) (incomingBytes : Nat)
    (after : State) : Prop
  | fits (hdue : ¬Due before incomingBytes) (hsame : after = before)
  | carried (hdue : Due before incomingBytes)
      (hcard : env.cardMounted = false ∨ env.cardMounted = true ∧ ¬Archives config env before ∧
        kLogFileMaxArchiveAttempts ≤ before.failedAttempts + 1)
      (hcarried : Carried env before after)
  | emptied (hdue : Due before incomingBytes) (hcard : env.cardMounted = true)
      (harchives : Archives config env before) (hemptied : Emptied env before after)
  | refused (hdue : Due before incomingBytes) (hcard : env.cardMounted = true)
      (harchives : ¬Archives config env before)
      (hattempts : ¬kLogFileMaxArchiveAttempts ≤ before.failedAttempts + 1) (hkept : Kept before after)

theorem carryOver_carried (env : Environment) (state : State) : Carried env state (carryOver env state) := by
  unfold carryOver startFresh
  cases hopens : env.freshOpens with
  | false =>
    simp only [if_true]
    exact ⟨by rw [hopens]; rfl, by rw [hopens]; rfl, rfl, rfl, rfl, rfl, rfl, rfl⟩
  | true =>
    simp only [Bool.true_eq_false, if_false]
    exact ⟨by rw [hopens]; rfl, by rw [hopens]; rfl, rfl, rfl, rfl, rfl, rfl, rfl⟩

theorem archiveToCard_snd_iff :
    (archiveToCard config env state state.range).2 ↔ Archives config env state := by
  unfold archiveToCard Archives
  cases openArchive config env state state.range with
  | none => simp
  | some target => cases env.cardTakes <;> simp

theorem not_due_iff : ¬Due state incomingBytes ↔
    state.liveSize + incomingBytes + 1 ≤ state.maxBytes ∨ state.firstRealSeen = false := by
  rw [Due, not_and_or, Nat.not_lt, Bool.not_eq_true]

theorem Carried.of_same {other : State} (hcarried : Carried env other after)
    (hsame : Kept before other) : Carried env before after := by
  obtain ⟨hlive, hlines, hseen, hfirst, hlast, hcarryOvers, harchives, hmax⟩ := hcarried
  obtain ⟨hlive', hlines', hseen', hfirst', hlast', hcarryOvers', harchives', hmax'⟩ := hsame
  have hread : readLive env other = readLive env before := by
    rw [readLive, readLive, State.liveText, State.liveText, hlive']
  rw [hread, hlive'] at hlive
  rw [hread, hlines'] at hlines
  exact ⟨hlive, hlines, hseen.trans hseen', hfirst.trans hlast', hlast.trans hlast',
    hcarryOvers.trans (by rw [hcarryOvers']), harchives.trans harchives', hmax.trans hmax'⟩

theorem archiveFailed_cases (config : Config) (env : Environment) (state : State) (card : Card)
    (range : Bytes) :
    if kLogFileMaxArchiveAttempts ≤ state.failedAttempts + 1 then
      Carried env state (archiveFailed config env { state with card := card } range)
    else Kept state (archiveFailed config env { state with card := card } range) := by
  unfold archiveFailed reportFailure
  split_ifs with hattempts
  · exact (carryOver_carried env _).of_same ⟨rfl, rfl, rfl, rfl, rfl, rfl, rfl, rfl⟩
  · exact ⟨rfl, rfl, rfl, rfl, rfl, rfl, rfl, rfl⟩

theorem rotateIfNeeded_rotated (config : Config) (env : Environment) (state : State) (incomingBytes : Nat) :
    Rotated config env state incomingBytes (rotateIfNeeded config env state incomingBytes) := by
  by_cases hdue : Due state incomingBytes
  · have hlarge := Nat.not_le.mpr hdue.1
    unfold rotateIfNeeded
    rw [if_neg hlarge, if_neg (by simp [hdue.2])]
    cases hcard : env.cardMounted with
    | false =>
      rw [if_pos rfl]
      exact .carried hdue (.inl hcard) (carryOver_carried env state)
    | true =>
      rw [if_neg (by simp)]
      have hresult : (archiveToCard config env state state.range).2 = true ↔ Archives config env state :=
        archiveToCard_snd_iff
      generalize archiveToCard config env state state.range = archived at hresult
      obtain ⟨card, archives⟩ := archived
      cases archives with
      | true =>
        refine .emptied hdue hcard (hresult.mp rfl) ?_
        unfold startFresh
        cases hopens : env.freshOpens with
        | false => exact ⟨by rw [hopens]; rfl, rfl, rfl, rfl, rfl, rfl⟩
        | true =>
          refine ⟨?_, rfl, rfl, rfl, rfl, rfl⟩
          cases env.freshTakes <;> simp [hopens]
      | false =>
        have harchives : ¬Archives config env state := fun hwhole ↦ Bool.false_ne_true (hresult.mpr hwhole)
        have hfailed := archiveFailed_cases config env state card state.range
        split_ifs at hfailed with hattempts
        · exact .carried hdue (.inr ⟨hcard, harchives, hattempts⟩) hfailed
        · exact .refused hdue hcard harchives hattempts hfailed
  · refine .fits hdue ?_
    unfold rotateIfNeeded
    rcases not_due_iff.mp hdue with hfits | hunseen
    · rw [if_pos hfits]
    · rw [if_pos hunseen, ite_self]

theorem asked_of_carried {carry archive : Prop}
    (hasked : if env.cardMounted = false then carry else if Archives config env before then archive
      else kLogFileMaxArchiveAttempts ≤ before.failedAttempts + 1 → carry)
    (hcard : env.cardMounted = false ∨ env.cardMounted ∧ ¬Archives config env before ∧
      kLogFileMaxArchiveAttempts ≤ before.failedAttempts + 1) : carry := by
  rcases hcard with hcard | ⟨hcard, harchives, hattempts⟩
  · rwa [if_pos hcard] at hasked
  · rw [if_neg (by simp [hcard]), if_neg harchives] at hasked
    exact hasked hattempts

theorem asked_of_emptied {carry archive : Prop}
    (hasked : if env.cardMounted = false then carry else if Archives config env before then archive
      else kLogFileMaxArchiveAttempts ≤ before.failedAttempts + 1 → carry)
    (hcard : env.cardMounted) (harchives : Archives config env before) : archive := by
  rwa [if_neg (by simp [hcard]), if_pos harchives] at hasked

inductive Stepped (config : Config) (dated : Dated) : Event → Dated → Prop
  | refused {line : Bytes} {stamp : LogStamp} {env : Environment}
      (hfolder : ensureLiveDirectory config env = false) :
      Stepped config dated (.append line stamp env) dated
  | appended {line : Bytes} {stamp : LogStamp} {env : Environment} {rotated : State}
      (hfolder : ensureLiveDirectory config env = true)
      (hrotated : Rotated config env dated.state (line ++ [newline]).length rotated) :
      Stepped config dated (.append line stamp env)
        ⟨(appendText env rotated (line ++ [newline]) stamp).1,
          appendedMarks env (line ++ [newline]) stamp (rotatedMarks env dated rotated)⟩
  | capped {bytes : Nat} {env : Environment} (hroom : ¬bytes < dated.state.liveSize) :
      Stepped config dated (.setMaxBytes bytes env) ⟨{ dated.state with maxBytes := bytes }, dated.marks⟩
  | lowered {bytes : Nat} {env : Environment} {after : State} (hlarge : bytes < dated.state.liveSize)
      (hrotated : Rotated config env { dated.state with maxBytes := bytes } 0 after) :
      Stepped config dated (.setMaxBytes bytes env)
        ⟨after, rotatedMarks env ⟨{ dated.state with maxBytes := bytes }, dated.marks⟩ after⟩
  | restarted {maxBytes : Nat} :
      Stepped config dated (.restart maxBytes)
        ⟨opened dated.state.live dated.state.card maxBytes, dated.marks⟩

structure Truthful (state : State) (marks : Marks) : Prop where
  seen : state.firstRealSeen = true →
    (dates marks).head? = some state.firstReal ∧ (dates marks).getLast? = some state.lastReal
  unseen : state.firstRealSeen = false → dates marks = []

theorem Truthful.of_same (htruthful : Truthful state marks)
    (hseen : after.firstRealSeen = state.firstRealSeen) (hfirst : after.firstReal = state.firstReal)
    (hlast : after.lastReal = state.lastReal) : Truthful after marks := by
  obtain ⟨hdays, hnone⟩ := htruthful
  refine ⟨?_, ?_⟩
  · rwa [hseen, hfirst, hlast]
  · rwa [hseen]

theorem rotatedMarks_of_same (hcarryOvers : after.carryOvers = dated.state.carryOvers)
    (harchives : after.archives = dated.state.archives) : rotatedMarks env dated after = dated.marks := by
  rw [rotatedMarks, hcarryOvers, harchives, if_neg (lt_irrefl _), if_neg fun hless ↦ lt_irrefl _ hless.1]

theorem rotatedMarks_carried (hcarried : Carried env dated.state after) :
    rotatedMarks env dated after = carriedMarks env dated := by
  rw [rotatedMarks, hcarried.carryOvers, if_pos (Nat.lt_succ_self _)]

theorem rotatedMarks_emptied (hemptied : Emptied env dated.state after) :
    rotatedMarks env dated after = if env.freshOpens then [] else dated.marks := by
  rw [rotatedMarks, hemptied.carryOvers, hemptied.archives, if_neg (lt_irrefl _)]
  simp

theorem next_stepped (config : Config) (dated : Dated) (event : Event) :
    Stepped config dated event (next config dated event) := by
  cases event with
  | append line stamp env =>
    cases hfolder : ensureLiveDirectory config env with
    | false =>
      simp only [next, hfolder, if_true]
      exact .refused hfolder
    | true =>
      simp only [next, append, hfolder, Bool.true_eq_false, if_false]
      exact .appended hfolder (rotateIfNeeded_rotated config env dated.state _)
  | setMaxBytes bytes env =>
    simp only [next, setMaxBytes]
    by_cases hlarge : bytes < State.liveSize { dated.state with maxBytes := bytes }
    · rw [if_pos hlarge]
      exact .lowered hlarge (rotateIfNeeded_rotated config env { dated.state with maxBytes := bytes } 0)
    · have hmarks : rotatedMarks env dated { dated.state with maxBytes := bytes } = dated.marks :=
        rotatedMarks_of_same rfl rfl
      rw [if_neg hlarge, hmarks]
      exact .capped hlarge
  | restart maxBytes => exact .restarted

theorem Truthful.rotate (htruthful : Truthful dated.state dated.marks)
    (hsafe : SafeRotation config env dated incomingBytes)
    (hrotated : Rotated config env dated.state incomingBytes after) :
    Truthful after (rotatedMarks env dated after) := by
  cases hrotated with
  | fits hdue hsame =>
    subst hsame
    rwa [rotatedMarks_of_same rfl rfl]
  | carried hdue hcard hcarried =>
    have hkeeps : KeepsLastDay env dated := asked_of_carried (hsafe hdue) hcard
    rw [rotatedMarks_carried hcarried]
    refine ⟨fun _ ↦ ?_, fun hunseen ↦ ?_⟩
    · rw [hcarried.firstReal, hcarried.lastReal]
      exact hkeeps
    · rw [hcarried.seen, hdue.2] at hunseen
      cases hunseen
  | emptied hdue hcard harchives hemptied =>
    have hopens : env.freshOpens := asked_of_emptied (hsafe hdue) hcard harchives
    rw [rotatedMarks_emptied hemptied, if_pos hopens]
    refine ⟨fun hseen ↦ ?_, fun _ ↦ rfl⟩
    rw [hemptied.seen] at hseen
    cases hseen
  | refused hdue hcard harchives hattempts hkept =>
    rw [rotatedMarks_of_same hkept.carryOvers hkept.archives]
    exact htruthful.of_same hkept.seen hkept.firstReal hkept.lastReal

theorem dates_append (marks more : Marks) : dates (marks ++ more) = dates marks ++ dates more :=
  reduceOption_append marks more

theorem dates_replicate (count : Nat) (stamp : LogStamp) : dates (List.replicate count (mark stamp)) =
      if stamp.clockSet then List.replicate count stamp.date else [] := by
  unfold mark dates
  split_ifs
  · simp [List.reduceOption]
  · exact reduceOption_replicate_none

variable {count : Nat}

theorem Truthful.add_none (htruthful : Truthful state marks)
    (hnone : count = 0 ∨ stamp.clockSet = false) :
    Truthful state (marks ++ List.replicate count (mark stamp)) := by
  have hdates : dates (marks ++ List.replicate count (mark stamp)) = dates marks := by
    rw [dates_append, dates_replicate]
    rcases hnone with rfl | hunset <;> simp [*]
  exact ⟨fun hseen ↦ hdates ▸ htruthful.seen hseen, fun hunseen ↦ hdates ▸ htruthful.unseen hunseen⟩

theorem dates_add (hcount : 0 < count) (hset : stamp.clockSet) (marks : Marks) :
    (dates (marks ++ List.replicate count (mark stamp))).head? =
        (dates marks).head?.or (some stamp.date) ∧
      (dates (marks ++ List.replicate count (mark stamp))).getLast? = some stamp.date := by
  obtain ⟨count, rfl⟩ := Nat.exists_eq_succ_of_ne_zero (Nat.ne_of_gt hcount)
  rw [dates_append, dates_replicate, if_pos hset]
  refine ⟨by rw [head?_append, replicate_succ, head?_cons], ?_⟩
  rw [replicate_succ', ← append_assoc, getLast?_concat]

theorem Truthful.add_last (htruthful : Truthful state marks) (hcount : 0 < count)
    (hset : stamp.clockSet) (hseen : state.firstRealSeen)
    (hlast : state.lastReal = stamp.date) :
    Truthful state (marks ++ List.replicate count (mark stamp)) := by
  obtain ⟨hhead, -⟩ := htruthful.seen hseen
  obtain ⟨hfirst, hend⟩ := dates_add hcount hset marks
  refine ⟨fun _ ↦ ⟨?_, hlast ▸ hend⟩, fun hunseen ↦ ?_⟩
  · rw [hfirst, hhead, some_or]
  · rw [hseen] at hunseen
    cases hunseen

theorem Truthful.remember (htruthful : Truthful state marks) (hcount : 0 < count)
    (stamp : LogStamp) :
    Truthful (rememberStamp state stamp) (marks ++ List.replicate count (mark stamp)) := by
  cases hset : stamp.clockSet with
  | false =>
    rw [rememberStamp, if_pos hset]
    exact htruthful.add_none (.inr hset)
  | true =>
    obtain ⟨hfirst, hend⟩ := dates_add hcount hset marks
    rw [rememberStamp, if_neg (by simp [hset])]
    refine ⟨fun _ ↦ ⟨?_, hend⟩, fun hunseen ↦ ?_⟩
    · rw [hfirst]
      cases hseen : state.firstRealSeen with
      | true => rw [(htruthful.seen hseen).1, some_or, if_pos rfl]
      | false =>
        rw [htruthful.unseen hseen, head?_nil, none_or, if_neg Bool.false_ne_true]
    · cases hunseen

theorem lastReal_of_rotated (hrotated : Rotated config env state incomingBytes after)
    (hno : ¬(Due state incomingBytes ∧ env.cardMounted ∧ Archives config env state)) :
    after.firstRealSeen = state.firstRealSeen ∧ after.lastReal = state.lastReal := by
  cases hrotated with
  | fits hdue hsame => rw [hsame]; exact ⟨rfl, rfl⟩
  | carried hdue hcard hcarried => exact ⟨hcarried.seen, hcarried.lastReal⟩
  | emptied hdue hcard harchives hemptied => exact absurd ⟨hdue, hcard, harchives⟩ hno
  | refused hdue hcard harchives hattempts hkept => exact ⟨hkept.seen, hkept.lastReal⟩

theorem Truthful.appendText (htruthful : Truthful after marks) (htext : text ≠ [])
    (hsafe : ∀ count ∈ env.appendTakes, env.appendOpens → 0 < count → stamp.clockSet →
      after.firstRealSeen ∧ after.lastReal = stamp.date) :
    Truthful (appendText env after text stamp).1 (appendedMarks env text stamp marks) := by
  have hlength := length_pos_iff.mpr htext
  unfold LogFileWriter.appendText appendedMarks
  cases hopens : env.appendOpens with
  | false => exact htruthful
  | true =>
    rw [if_neg (by simp), if_neg (by simp)]
    cases htakes : env.appendTakes with
    | none =>
      have hcounted : Truthful
          { after with live := some (after.liveText ++ text), lines := after.lines + 1 } marks :=
        htruthful.of_same rfl rfl rfl
      exact hcounted.remember hlength stamp
    | some count =>
      suffices hadded : Truthful after
          (marks ++ List.replicate (taken (some count) text).length (mark stamp)) from
        hadded.of_same rfl rfl rfl
      by_cases hnone : (text.take count).length = 0 ∨ stamp.clockSet = false
      · exact htruthful.add_none hnone
      · obtain ⟨hsome, hset⟩ := not_or.mp hnone
        have hcount : 0 < count := by
          refine Nat.pos_of_ne_zero fun hzero ↦ hsome ?_
          rw [hzero, take_zero, length_nil]
        obtain ⟨hseen, hlast⟩ := hsafe count htakes hopens hcount (by simpa using hset)
        exact htruthful.add_last (Nat.pos_of_ne_zero hsome) (by simpa using hset) hseen hlast

theorem Truthful.next (htruthful : Truthful dated.state dated.marks) {event : Event}
    (hsafe : SafeStep config dated event) :
    Truthful (next config dated event).state (next config dated event).marks := by
  have hstepped := next_stepped config dated event
  generalize LogDates.next config dated event = after at hstepped ⊢
  cases hstepped with
  | refused => exact htruthful
  | appended hfolder hrotated =>
    obtain ⟨hrotation, hwrite⟩ := hsafe hfolder
    refine (htruthful.rotate hrotation hrotated).appendText (by simp) ?_
    intro count htakes hopens hcount hset
    obtain ⟨hseen, hlast, hno⟩ := hwrite count htakes hopens hcount hset
    obtain ⟨hseen', hlast'⟩ := lastReal_of_rotated hrotated hno
    exact ⟨hseen'.trans hseen, hlast'.trans hlast⟩
  | @capped bytes env =>
    have hcapped : Truthful { dated.state with maxBytes := bytes } dated.marks :=
      htruthful.of_same rfl rfl rfl
    exact hcapped
  | @lowered bytes env after hlarge hrotated =>
    have hcapped : Truthful { dated.state with maxBytes := bytes } dated.marks :=
      htruthful.of_same rfl rfl rfl
    have hsafe : SafeRotation config env ⟨{ dated.state with maxBytes := bytes }, dated.marks⟩ 0 :=
      hsafe hlarge
    exact Truthful.rotate hcapped hsafe hrotated
  | restarted => exact ⟨fun hseen ↦ (Bool.false_ne_true hseen).elim, fun _ ↦ hsafe⟩

theorem rotation_eq_some {event : Event}
    (hrotation : rotation config state event = some (env, before, bytes)) :
    before.firstRealSeen = state.firstRealSeen ∧ before.firstReal = state.firstReal ∧
      before.lastReal = state.lastReal := by
  cases event with
  | append line stamp env =>
    rw [rotation] at hrotation
    split_ifs at hrotation
    obtain ⟨rfl, rfl, rfl⟩ := hrotation
    exact ⟨rfl, rfl, rfl⟩
  | setMaxBytes bytes env =>
    rw [rotation] at hrotation
    split_ifs at hrotation
    obtain ⟨rfl, rfl, rfl⟩ := hrotation
    exact ⟨rfl, rfl, rfl⟩
  | restart maxBytes => cases hrotation

theorem Truthful.tells {event : Event} (htruthful : Truthful dated.state dated.marks) :
    TellsTruth config dated event := by
  intro first last hnamed
  unfold namedDays at hnamed
  split at hnamed
  case h_1 => cases hnamed
  case h_2 env before incomingBytes hrotation =>
    split_ifs at hnamed with hcalled
    obtain ⟨rfl, rfl⟩ := hnamed
    obtain ⟨hseen, hfirst, hlast⟩ := rotation_eq_some hrotation
    rw [hfirst, hlast]
    exact htruthful.seen (hseen ▸ hcalled.1.2)

theorem tailFrom_suffix (lines found : Nat) (front tail : Bytes) :
    tailFrom lines found front tail <:+ front.reverse ++ tail := by
  induction front generalizing found tail with
  | nil => exact suffix_rfl
  | cons byte front ih =>
    have hrest : front.reverse ++ byte :: tail = (byte :: front).reverse ++ tail := by simp
    have htail : tail <:+ (byte :: front).reverse ++ tail := suffix_append _ tail
    rw [tailFrom]
    split_ifs
    · exact htail
    · exact hrest ▸ ih (found + 1) (byte :: tail)
    · exact hrest ▸ ih found (byte :: tail)

/-- A tail of a text that ends with a newline ends the text, and one of another text ends it but for the
newline that is added. -/
theorem logTail_suffix (lines : Nat) (htext : text ≠ []) :
    logTail text lines <:+ if text.getLast? = some newline then text else text ++ [newline] := by
  unfold logTail
  by_cases hlines : lines = 0
  · rw [if_pos (.inl hlines)]
    exact nil_suffix
  · rw [if_neg (not_or.mpr ⟨hlines, htext⟩)]
    split_ifs with hend
    · have hsuffix := tailFrom_suffix lines 0 text.dropLast.reverse []
      rw [reverse_reverse, append_nil] at hsuffix
      obtain ⟨front, hfront⟩ := hsuffix
      refine ⟨front, ?_⟩
      rw [← append_assoc, hfront]
      exact dropLast_append_getLast? newline hend
    · have hsuffix := tailFrom_suffix lines 0 text.reverse []
      rw [reverse_reverse, append_nil] at hsuffix
      obtain ⟨front, hfront⟩ := hsuffix
      exact ⟨front, by rw [← append_assoc, hfront]⟩

def Aligned (dated : Dated) : Prop := dated.marks.length = dated.state.liveText.length

theorem length_tailMarks (hlength : marks.length = text.length) (lines : Nat) :
    (tailMarks text marks lines).length = (logTail text lines).length := by
  unfold tailMarks
  dsimp only
  split_ifs with hnil hend
  · rw [hnil]
    rfl
  · have htext : text ≠ [] := by
      rintro rfl
      cases hend
    have hsuffix := (logTail_suffix lines htext).length_le
    rw [if_pos hend] at hsuffix
    rw [length_drop, hlength]
    omega
  · have htext : text ≠ [] := by
      rintro rfl
      exact hnil (by simp [logTail])
    have hsuffix := (logTail_suffix lines htext).length_le
    have hkept := length_pos_iff.mpr hnil
    rw [if_neg hend, length_append, length_singleton] at hsuffix
    rw [length_append, length_drop, length_singleton, hlength]
    omega

theorem length_taken {α β : Type} (count : Option Nat) {items : List α} {others : List β}
    (hlength : items.length = others.length) : (taken count items).length = (taken count others).length := by
  cases count with
  | none => exact hlength
  | some count => simp [taken, hlength]

theorem Aligned.rotate (haligned : Aligned dated)
    (hrotated : Rotated config env dated.state incomingBytes after) :
    (rotatedMarks env dated after).length = after.liveText.length := by
  cases hrotated with
  | fits hdue hsame =>
    subst hsame
    rwa [rotatedMarks_of_same rfl rfl]
  | carried hdue hcard hcarried =>
    have htext := congrArg (Option.getD · []) hcarried.live
    change after.liveText = _ at htext
    rw [rotatedMarks_carried hcarried, carriedMarks, htext]
    cases hopens : env.freshOpens with
    | false => exact haligned
    | true =>
      simp only [Bool.true_eq_false, if_false, if_true, getD_some, readLive]
      refine length_taken _ ?_
      split_ifs
      · exact length_tailMarks haligned _
      · simp [logTail]
  | emptied hdue hcard harchives hemptied =>
    rw [rotatedMarks_emptied hemptied, State.liveText, hemptied.live]
    split_ifs
    · rfl
    · exact haligned
  | refused hdue hcard harchives hattempts hkept =>
    rw [rotatedMarks_of_same hkept.carryOvers hkept.archives, State.liveText, hkept.live]
    exact haligned

theorem appendText_aligned (haligned : marks.length = after.liveText.length) (env : Environment)
    (text : Bytes) (stamp : LogStamp) :
    (appendedMarks env text stamp marks).length = (appendText env after text stamp).1.liveText.length := by
  unfold appendedMarks LogFileWriter.appendText
  split_ifs
  · exact haligned
  · rw [length_append, length_replicate, haligned]
    cases env.appendTakes with
    | none =>
      obtain ⟨firstReal, firstRealSeen, lastReal, hstamped⟩ := exists_rememberStamp_eq
        { after with live := some (after.liveText ++ text), lines := after.lines + 1 } stamp
      simp only [hstamped]
      simp [taken, State.liveText]
    | some count => simp [taken, State.liveText]

theorem Aligned.next (haligned : Aligned dated) (event : Event) : Aligned (next config dated event) := by
  have hstepped := next_stepped config dated event
  generalize LogDates.next config dated event = after at hstepped ⊢
  cases hstepped with
  | refused => exact haligned
  | appended hfolder hrotated => exact appendText_aligned (haligned.rotate hrotated) _ _ _
  | capped => exact haligned
  | @lowered bytes env after hlarge hrotated =>
    have hcapped : Aligned ⟨{ dated.state with maxBytes := bytes }, dated.marks⟩ := haligned
    exact hcapped.rotate hrotated
  | restarted => exact haligned

/-! ## Every run -/

def start (live : Option Bytes) (card : Card) (maxBytes : Nat) (marks : Marks) : Dated :=
  ⟨opened live card maxBytes, marks⟩

/-- Every archive is named by the first and the last day in the live file, in every run whose steps are
safe, over a live file without a stamped line. The marks of the file are one for each byte throughout. -/
theorem archives_tell_truth {live : Option Bytes} {card : Card} {maxBytes : Nat} {marks : Marks}
    {last : Dated} {events : List Event} (hmarks : marks.length = (live.getD []).length)
    (hnone : dates marks = [])
    (hrun : Run (fun dated event dated' ↦ SafeStep config dated event ∧ dated' = next config dated event)
      (start live card maxBytes marks) events last) :
    Aligned last ∧ ∀ event, TellsTruth config last event := by
  have hkeep : ∀ dated event dated', Aligned dated ∧ Truthful dated.state dated.marks →
      SafeStep config dated event ∧ dated' = next config dated event →
        Aligned dated' ∧ Truthful dated'.state dated'.marks := by
    rintro dated event dated' ⟨haligned, htruthful⟩ ⟨hsafe, rfl⟩
    exact ⟨haligned.next event, htruthful.next hsafe⟩
  have hstart : Truthful (opened live card maxBytes) marks :=
    ⟨fun hseen ↦ (Bool.false_ne_true hseen).elim, fun _ ↦ hnone⟩
  obtain ⟨haligned, htruthful⟩ := hrun.preserves hkeep ⟨hmarks, hstart⟩
  exact ⟨haligned, fun event ↦ htruthful.tells⟩

instance (env : Environment) (dated : Dated) : Decidable (KeepsLastDay env dated) :=
  inferInstanceAs (Decidable (_ ∧ _))

instance (config : Config) (env : Environment) (dated : Dated) (incomingBytes : Nat) :
    Decidable (SafeRotation config env dated incomingBytes) := by
  unfold SafeRotation
  infer_instance

instance (config : Config) (env : Environment) (state : State) (text : Bytes) (stamp : LogStamp) :
    Decidable (SafeWrite config env state text stamp) := by
  unfold SafeWrite
  infer_instance

instance (config : Config) (dated : Dated) (event : Event) : Decidable (SafeStep config dated event) := by
  cases event <;> unfold SafeStep <;> infer_instance

def lineOf (day : Int) (env : Environment) : Event := .append (ascii "line") ⟨⟨2026, 10, day⟩, true⟩ env

def twoDays : List Event := [lineOf 11 readyCard, lineOf 12 readyCard]

theorem archives_tell_truth_of_two_days :
    TellsTruth sampleConfig (twoDays.foldl (next sampleConfig) (start none ∅ 12 [])) (lineOf 13 readyCard) ∧
      namedDays sampleConfig (twoDays.foldl (next sampleConfig) (start none ∅ 12 [])).state
        (lineOf 13 readyCard) = some (⟨2026, 10, 11⟩, ⟨2026, 10, 12⟩) := by
  have hsafe : AllowedAlong (next sampleConfig) (SafeStep sampleConfig) (start none ∅ 12 []) twoDays := by
    decide +kernel
  exact ⟨(archives_tell_truth rfl rfl hsafe.run).2 _, by decide +kernel⟩

def restartBetween : List Event := [lineOf 11 readyCard, .restart 12, lineOf 12 readyCard]

def carriedOver : List Event :=
  [lineOf 11 readyCard, lineOf 12 readyCard, .setMaxBytes 9 { readyCard with cardMounted := false }]

/-- The archive of both days is named by the second alone. -/
theorem first_day_missing :
    ¬TellsTruth sampleConfig (restartBetween.foldl (next sampleConfig) (start none ∅ 12 []))
        (lineOf 13 readyCard) ∧
      ¬TellsTruth sampleConfig (carriedOver.foldl (next sampleConfig) (start none ∅ 12 []))
        (lineOf 13 readyCard) := by
  constructor
  · intro htells
    exact absurd (htells ⟨2026, 10, 12⟩ ⟨2026, 10, 12⟩ (by decide +kernel)).1 (by decide +kernel)
  · intro htells
    exact absurd (htells ⟨2026, 10, 12⟩ ⟨2026, 10, 12⟩ (by decide +kernel)).1 (by decide +kernel)

end DhcpServer.Core.LogDates
