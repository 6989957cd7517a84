import DhcpServer.Core.LogFileFormat
import DhcpServer.Library.Run
import Mathlib.Data.List.AList

/-!
# The log file and its archives

`LogFileWriter` keeps one log: a live file on the internal volume, and on the card one archive for
each range of days. What the writer asks of the two volumes may go wrong at every call, and what goes
wrong is an input. A line that was written is followed through every rotation: it is in the live file
or in one archive, once, unless a rotation without an archive has dropped it.
-/

namespace DhcpServer.Core.LogFileWriter

open List (Perm)
open Library LogFileFormat Storage.PathUtil List Option

abbrev Card := AList fun _ : Bytes ↦ Bytes

structure Config where
  livePath : Bytes
  cardMount : Bytes
  archiveFolder : Bytes
  logTitle : Bytes

structure Environment where
  cardMounted : Bool
  isDirectory : Bytes → Bool
  /-- `mkdir` succeeds, or the directory is there after it -/
  makeDir : Bytes → Bool
  readOpens : Bool
  sourceOpens : Bool
  targetOpens : Bool
  /-- how much of a copy the card takes before it refuses the rest -/
  cardTakes : Option Nat
  removes : Bool
  freshOpens : Bool
  freshTakes : Option Nat
  appendOpens : Bool
  appendTakes : Option Nat

structure State where
  live : Option Bytes
  card : Card
  maxBytes : Nat
  failedAttempts : Nat
  firstRealSeen : Bool
  firstReal : LogDate
  lastReal : LogDate
  lines : Nat
  archives : Nat
  carryOvers : Nat
  notices : List Bytes

/-! ## The source's functions -/

def folderOf (path : Bytes) : Bytes := (path.reverse.dropWhile (· ≠ slash)).tail.reverse

def fileNameOf (path : Bytes) : Bytes := (path.reverse.takeWhile (· ≠ slash)).reverse

def contentAt (card : Card) (path : Bytes) : Bytes := (card.lookup path).getD []

namespace State

def liveText (state : State) : Bytes := state.live.getD []

def liveSize (state : State) : Nat := state.liveText.length

def range (state : State) : Bytes := logRangeName state.firstReal state.lastReal

end State

def readLive (env : Environment) (state : State) : Bytes := if env.readOpens then state.liveText else []

def ensureLiveDirectory (config : Config) (env : Environment) : Bool :=
  let dir := folderOf config.livePath
  if dir = [] ∨ env.isDirectory dir then true
  else
    let parent := folderOf dir
    if parent = [] ∨ env.isDirectory parent = false then false else env.makeDir dir

def rememberStamp (state : State) (stamp : LogStamp) : State :=
  if stamp.clockSet = false then state
  else
    { state with
      firstReal := if state.firstRealSeen then state.firstReal else stamp.date
      firstRealSeen := true
      lastReal := stamp.date }

/-- The first half of `archiveToCard`: the archive that is open for appending. -/
def openArchive (config : Config) (env : Environment) (state : State) (range : Bytes) : Option Bytes :=
  let chain := logFolderChain config.cardMount config.archiveFolder range
  match chain.getLast? with
  | none => none
  | some folder =>
    if (chain.all fun level ↦ env.isDirectory level || env.makeDir level) ∧
        state.live.isSome ∧ env.sourceOpens ∧ env.targetOpens then
      some (folder ++ slash :: fileNameOf config.livePath)
    else none

def archiveToCard (config : Config) (env : Environment) (state : State) (range : Bytes) : Card × Bool :=
  match openArchive config env state range with
  | none => (state.card, false)
  | some target =>
    let earlier := contentAt state.card target
    match env.cardTakes with
    | none => (state.card.insert target (earlier ++ state.liveText), true)
    | some count =>
      -- the partial copy is removed, and with it what the archive held
      (if env.removes then state.card.erase target
        else state.card.insert target (earlier ++ state.liveText.take count), false)

def startFresh (env : Environment) (state : State) (content : Bytes) : State :=
  if env.freshOpens = false then state
  else
    { state with
      live := some (match env.freshTakes with
        | none => content
        | some count => content.take count)
      lines := content.count newline }

def carryOver (env : Environment) (state : State) : State :=
  let counted := { state with carryOvers := state.carryOvers + 1 }
  { startFresh env counted (logTail (readLive env state) kLogFileKeepLines) with
    firstReal := state.lastReal }

def failureMessage (config : Config) (state : State) (range : Bytes) (attempts : Nat) : Bytes :=
  config.logTitle ++ ascii " archive failed (" ++ decimal attempts ++ ascii " of " ++
    decimal kLogFileMaxArchiveAttempts ++ ascii "): " ++ config.cardMount ++ ascii "/" ++
    config.archiveFolder ++ ascii "/" ++ range ++ ascii "/" ++ fileNameOf config.livePath ++
    ascii ", " ++ decimal state.liveSize ++ ascii " bytes kept in " ++ config.livePath ++
    if kLogFileMaxArchiveAttempts ≤ attempts then
      ascii "; giving up and carrying the last " ++ decimal kLogFileKeepLines ++ ascii " lines"
    else []

def reportFailure (config : Config) (state : State) (range : Bytes) : State :=
  { state with
    failedAttempts := state.failedAttempts + 1
    notices := state.notices ++ [failureMessage config state range (state.failedAttempts + 1)] }

def archiveFailed (config : Config) (env : Environment) (state : State) (range : Bytes) : State :=
  if kLogFileMaxArchiveAttempts ≤ state.failedAttempts + 1 then
    carryOver env { reportFailure config state range with failedAttempts := 0 }
  else reportFailure config state range

def rotateIfNeeded (config : Config) (env : Environment) (state : State) (incomingBytes : Nat) : State :=
  if state.liveSize + incomingBytes + 1 ≤ state.maxBytes then state
  else if state.firstRealSeen = false then state
  else if env.cardMounted = false then carryOver env state
  else
    match archiveToCard config env state state.range with
    | (card, true) =>
      { startFresh env
          { state with card := card, failedAttempts := 0, archives := state.archives + 1 } [] with
        firstRealSeen := false
        lines := 0 }
    | (card, false) => archiveFailed config env { state with card := card } state.range

def setMaxBytes (config : Config) (env : Environment) (state : State) (bytes : Nat) : State :=
  let capped := { state with maxBytes := bytes }
  if bytes < capped.liveSize then rotateIfNeeded config env capped 0 else capped

/-- The second half of `append`: the text is written and counted. -/
def appendText (env : Environment) (state : State) (text : Bytes) (stamp : LogStamp) : State × Bool :=
  if env.appendOpens = false then (state, false)
  else
    match env.appendTakes with
    | some count => ({ state with live := some (state.liveText ++ text.take count) }, false)
    | none =>
      (rememberStamp
        { state with live := some (state.liveText ++ text), lines := state.lines + 1 } stamp, true)

def append (config : Config) (env : Environment) (state : State) (line : Bytes) (stamp : LogStamp) :
    State × Bool :=
  if ensureLiveDirectory config env = false then (state, false)
  else
    appendText env (rotateIfNeeded config env state (line ++ [newline]).length) (line ++ [newline])
      stamp

/-! ## Lines that were written -/

inductive Event
  | append (line : Bytes) (stamp : LogStamp) (env : Environment)
  | setMaxBytes (bytes : Nat) (env : Environment)

/-- A writer with the lines it has accepted and those that rotations have dropped. -/
structure Journal where
  state : State
  written : List Bytes
  dropped : List Bytes

def archived (card : Card) : List Bytes := card.entries.flatMap fun archive ↦ linesOf newline archive.2

def onDisk (state : State) : List Bytes := linesOf newline state.liveText ++ archived state.card

/-- What a carry-over may drop: all but the last lines of the live file. -/
def droppedBy (env : Environment) (before after : State) : List Bytes :=
  if before.carryOvers < after.carryOvers ∧ env.freshOpens then
    (linesOf newline before.liveText).rdrop kLogFileKeepLines
  else []

def next (config : Config) (journal : Journal) : Event → Journal
  | .append line stamp env =>
    let result := append config env journal.state line stamp
    ⟨result.1, if result.2 then journal.written ++ [line] else journal.written,
      journal.dropped ++ droppedBy env journal.state result.1⟩
  | .setMaxBytes bytes env =>
    let state := setMaxBytes config env journal.state bytes
    ⟨state, journal.written, journal.dropped ++ droppedBy env journal.state state⟩

/-- A new writer over what the volumes hold, whose lines count as written. -/
def start (live : Option Bytes) (card : Card) (maxBytes : Nat) : Journal :=
  let state : State := ⟨live, card, maxBytes, 0, false, ⟨1970, 1, 1⟩, ⟨1970, 1, 1⟩, 0, 0, 0, []⟩
  ⟨state, onDisk state, []⟩

/-- Every line that was written is on one of the volumes, once, or was dropped. -/
def NothingLost (journal : Journal) : Prop := (onDisk journal.state ++ journal.dropped).Perm journal.written

structure WholeFiles (state : State) : Prop where
  live : Whole newline state.liveText
  card : ∀ archive ∈ state.card.entries, Whole newline archive.2

/-- Only a file that cannot be opened goes wrong on the internal volume. -/
def Environment.TakesLive (env : Environment) : Prop := env.freshTakes = none ∧ env.appendTakes = none

def SafeCarry (env : Environment) (state : State) : Prop :=
  env.freshOpens = true → env.readOpens = true ∨ state.liveText = []

def SafeFailure (env : Environment) (state : State) : Prop :=
  kLogFileMaxArchiveAttempts ≤ state.failedAttempts + 1 → SafeCarry env state

/-- An archive that is whole is followed by an empty live file, and a copy that the card refuses
takes nothing with it that the archive held, and leaves nothing behind. -/
def SafeArchive (config : Config) (env : Environment) (state : State) : Prop :=
  match openArchive config env state state.range, env.cardTakes with
  | none, _ => SafeFailure env state
  | some _, none => env.freshOpens = true ∨ state.liveText = []
  | some target, some count =>
    (if env.removes then contentAt state.card target = [] else state.liveText.take count = []) ∧
      SafeFailure env state

def SafeRotation (config : Config) (env : Environment) (state : State) (incomingBytes : Nat) : Prop :=
  state.maxBytes < state.liveSize + incomingBytes + 1 → state.firstRealSeen = true →
    if env.cardMounted then SafeArchive config env state else SafeCarry env state

def SafeStep (config : Config) (state : State) : Event → Prop
  | .append line _ env =>
    newline ∉ line ∧ env.TakesLive ∧ (ensureLiveDirectory config env = true →
        SafeRotation config env state (line ++ [newline]).length)
  | .setMaxBytes bytes env =>
    env.TakesLive ∧ (bytes < state.liveSize → SafeRotation config env { state with maxBytes := bytes } 0)

variable {config : Config} {env : Environment} {state after : State} {card : Card}
  {path content range line : Bytes} {stamp : LogStamp} {incomingBytes bytes : Nat}

theorem archived_perm (card : Card) (path : Bytes) :
    (archived card).Perm (linesOf newline (contentAt card path) ++ archived (card.erase path)) := by
  by_cases hpath : path ∈ card
  · obtain ⟨content, front, back, hfront, hentries, herase⟩ :=
      exists_of_kerase (AList.mem_keys.mp hpath)
    have hlookup : card.lookup path = some content := by
      rw [← mem_def, AList.mem_lookup_iff, hentries]
      simp
    have hcontent : contentAt card path = content := by rw [contentAt, hlookup, getD_some]
    have hothers : archived (card.erase path) =
        front.flatMap (fun archive ↦ linesOf newline archive.2) ++
          back.flatMap (fun archive ↦ linesOf newline archive.2) := by
      rw [← flatMap_append, ← herase]
      rfl
    rw [hothers, hcontent, archived, hentries, flatMap_append, flatMap_cons, ← append_assoc, ← append_assoc]
    exact perm_append_comm.append_right _
  · have hlookup : card.lookup path = none := AList.lookup_eq_none.mpr hpath
    have hothers : archived (card.erase path) = archived card := by
      rw [archived, archived]
      exact congrArg _ (kerase_of_notMem_keys fun hmem ↦ hpath (AList.mem_keys.mpr hmem))
    rw [contentAt, hlookup, getD_none, linesOf_nil, nil_append, hothers]

theorem archived_insert (card : Card) (path content : Bytes) :
    archived (card.insert path content) = linesOf newline content ++ archived (card.erase path) := rfl

theorem archived_erase (hempty : contentAt card path = []) :
    (archived (card.erase path)).Perm (archived card) := by
  have hperm := archived_perm card path
  rw [hempty, linesOf_nil, nil_append] at hperm
  exact hperm.symm

theorem archived_append (content : Bytes) (hwhole : Whole newline (contentAt card path)) :
    (archived (card.insert path (contentAt card path ++ content))).Perm
      (linesOf newline content ++ archived card) := by
  rw [archived_insert, hwhole.linesOf_append]
  calc
    Perm (linesOf newline (contentAt card path) ++ linesOf newline content ++
        archived (card.erase path))
      (linesOf newline content ++ linesOf newline (contentAt card path) ++
        archived (card.erase path)) := perm_append_comm.append_right _
    _ = linesOf newline content ++ (linesOf newline (contentAt card path) ++
        archived (card.erase path)) := append_assoc _ _ _
    Perm _ (linesOf newline content ++ archived card) := (archived_perm card path).symm.append_left _

namespace WholeFiles

theorem contentAt (hwhole : WholeFiles state) (path : Bytes) :
    Whole newline (contentAt state.card path) := by
  unfold LogFileWriter.contentAt
  cases hlookup : state.card.lookup path with
  | none => exact whole_nil
  | some content => exact hwhole.card ⟨path, content⟩ (AList.mem_lookup_iff.mp hlookup)

theorem erase (hwhole : WholeFiles state) (path : Bytes) :
    ∀ archive ∈ (state.card.erase path).entries, Whole newline archive.2 :=
  fun archive hmem ↦ hwhole.card archive ((kerase_sublist path _).mem hmem)

theorem insert (hwhole : WholeFiles state) (hcontent : Whole newline content) :
    ∀ archive ∈ (state.card.insert path content).entries, Whole newline archive.2 := by
  rw [AList.entries_insert]
  exact forall_mem_cons.mpr ⟨hcontent, hwhole.erase path⟩

end WholeFiles

/-! ## One rotation -/

/-- What a call may do to the lines of the volumes: it drops what a carry-over may drop. -/
structure Settles (env : Environment) (before after : State) : Prop where
  whole : WholeFiles after
  lines : (onDisk after ++ droppedBy env before after).Perm (onDisk before)

theorem droppedBy_same (hcount : after.carryOvers = state.carryOvers) : droppedBy env state after = [] := by
  rw [droppedBy, hcount, if_neg (fun hless ↦ lt_irrefl _ hless.1)]

namespace Settles

theorem of_same_count (hwhole : WholeFiles after) (hcount : after.carryOvers = state.carryOvers)
    (hlines : (onDisk after).Perm (onDisk state)) : Settles env state after where
  whole := hwhole
  lines := by rwa [droppedBy_same hcount, append_nil]

theorem refl (env : Environment) (hwhole : WholeFiles state) : Settles env state state :=
  of_same_count hwhole rfl (.refl _)

/-- Before a call the card may have been reordered, and members that are no text have changed. -/
theorem of_same_lines {before : State} (hsettles : Settles env before after)
    (hlive : before.liveText = state.liveText) (hcount : before.carryOvers = state.carryOvers)
    (hcard : (archived before.card).Perm (archived state.card)) : Settles env state after where
  whole := hsettles.whole
  lines := by
    have hdropped : droppedBy env state after = droppedBy env before after := by
      rw [droppedBy, droppedBy, hlive, hcount]
    rw [hdropped]
    refine hsettles.lines.trans ?_
    rw [onDisk, onDisk, hlive]
    exact hcard.append_left _

end Settles

theorem carryOver_carryOvers : (carryOver env state).carryOvers = state.carryOvers + 1 := by
  unfold carryOver startFresh
  split_ifs <;> rfl

theorem carryOver_settles (htakes : env.TakesLive) (hsafe : SafeCarry env state)
    (hwhole : WholeFiles state) : Settles env state (carryOver env state) := by
  cases hopens : env.freshOpens with
  | false =>
    have hkept : carryOver env state =
        { state with carryOvers := state.carryOvers + 1, firstReal := state.lastReal } := by
      rw [carryOver, startFresh, if_pos hopens]
    have hdropped : droppedBy env state (carryOver env state) = [] := by simp [droppedBy, hopens]
    rw [hkept] at hdropped ⊢
    refine ⟨⟨hwhole.live, hwhole.card⟩, ?_⟩
    rw [hdropped, append_nil]
    exact .refl _
  | true =>
    have hread : readLive env state = state.liveText := by
      unfold readLive
      split_ifs with hreads
      · rfl
      · exact ((hsafe hopens).resolve_left hreads).symm
    obtain ⟨htail, hlines⟩ := linesOf_logTail kLogFileKeepLines hwhole.live
    have hlive : (carryOver env state).liveText = logTail state.liveText kLogFileKeepLines := by
      simp only [carryOver, startFresh, hopens, hread, htakes.1, Bool.true_eq_false, if_false,
        State.liveText, getD_some]
    have hcard : (carryOver env state).card = state.card := by
      unfold carryOver startFresh
      split_ifs <;> rfl
    have hdropped : droppedBy env state (carryOver env state) =
        (linesOf newline state.liveText).rdrop kLogFileKeepLines := by
      rw [droppedBy, carryOver_carryOvers, if_pos ⟨Nat.lt_succ_self _, hopens⟩]
    refine ⟨⟨hlive ▸ htail, hcard ▸ hwhole.card⟩, ?_⟩
    rw [hdropped, onDisk, onDisk, hlive, hlines, hcard]
    calc
      Perm ((linesOf newline state.liveText).rtake kLogFileKeepLines ++ archived state.card ++
          (linesOf newline state.liveText).rdrop kLogFileKeepLines)
        ((linesOf newline state.liveText).rdrop kLogFileKeepLines ++
          ((linesOf newline state.liveText).rtake kLogFileKeepLines ++ archived state.card)) :=
        perm_append_comm
      _ = (linesOf newline state.liveText).rdrop kLogFileKeepLines ++
          (linesOf newline state.liveText).rtake kLogFileKeepLines ++ archived state.card :=
        (append_assoc _ _ _).symm
      _ = linesOf newline state.liveText ++ archived state.card := by
        rw [List.rdrop, List.rtake, take_append_drop]

theorem archiveFailed_settles (htakes : env.TakesLive) (hsafe : SafeFailure env state)
    (hwhole : WholeFiles state) (hcard : ∀ archive ∈ card.entries, Whole newline archive.2)
    (hlines : (archived card).Perm (archived state.card)) :
    Settles env state (archiveFailed config env { state with card := card } range) := by
  unfold archiveFailed
  split_ifs with hattempts
  · refine .of_same_lines (carryOver_settles htakes ?_ ?_) rfl rfl hlines
    · exact hsafe hattempts
    · exact ⟨hwhole.live, hcard⟩
  · exact .of_same_count ⟨hwhole.live, hcard⟩ rfl (hlines.append_left _)

theorem archived_settles (hfresh : env.freshOpens ∨ state.liveText = [])
    (htakes : env.TakesLive) (hwhole : WholeFiles state)
    (hafter : after = { startFresh env
        { state with
          card := state.card.insert path (contentAt state.card path ++ state.liveText)
          failedAttempts := 0
          archives := state.archives + 1 } [] with
      firstRealSeen := false
      lines := 0 }) :
    Settles env state after := by
  have hlive : after.liveText = [] := by
    cases hopens : env.freshOpens with
    | false =>
      rw [hafter, startFresh, if_pos hopens]
      exact hfresh.resolve_left (by simp [hopens])
    | true => simp [hafter, startFresh, hopens, htakes.1, State.liveText]
  have hcard : after.card = state.card.insert path (contentAt state.card path ++ state.liveText) := by
    rw [hafter]
    unfold startFresh
    split_ifs <;> rfl
  have hcount : after.carryOvers = state.carryOvers := by
    rw [hafter]
    unfold startFresh
    split_ifs <;> rfl
  have hfiles : WholeFiles after := by
    refine ⟨hlive ▸ whole_nil, ?_⟩
    rw [hcard]
    exact hwhole.insert ((hwhole.contentAt path).append hwhole.live)
  refine .of_same_count hfiles hcount ?_
  rw [onDisk, onDisk, hlive, hcard, linesOf_nil, nil_append]
  exact archived_append state.liveText (hwhole.contentAt path)

theorem rotateIfNeeded_settles (htakes : env.TakesLive)
    (hsafe : SafeRotation config env state incomingBytes) (hwhole : WholeFiles state) :
    Settles env state (rotateIfNeeded config env state incomingBytes) := by
  unfold rotateIfNeeded
  split_ifs with hfits hseen hcard
  · exact .refl env hwhole
  · exact .refl env hwhole
  · have hsafe := hsafe (Nat.lt_of_not_le hfits) (by simpa using hseen)
    rw [if_neg (by simp [hcard])] at hsafe
    exact carryOver_settles htakes hsafe hwhole
  · have hsafe := hsafe (Nat.lt_of_not_le hfits) (by simpa using hseen)
    rw [if_pos (by simpa using hcard)] at hsafe
    unfold SafeArchive at hsafe
    cases hopen : openArchive config env state state.range with
    | none =>
      simp only [hopen] at hsafe
      simp only [archiveToCard, hopen]
      exact archiveFailed_settles htakes hsafe hwhole hwhole.card (.refl _)
    | some target =>
      simp only [hopen] at hsafe
      cases hcopy : env.cardTakes with
      | none =>
        simp only [hcopy] at hsafe
        simp only [archiveToCard, hopen, hcopy]
        exact archived_settles hsafe htakes hwhole rfl
      | some count =>
        simp only [hcopy] at hsafe
        obtain ⟨hkept, hsafe⟩ := hsafe
        simp only [archiveToCard, hopen, hcopy]
        cases hremoves : env.removes with
        | true =>
          rw [if_pos hremoves] at hkept
          exact archiveFailed_settles htakes hsafe hwhole (hwhole.erase target) (archived_erase hkept)
        | false =>
          rw [if_neg (by simp [hremoves])] at hkept
          have hcontent : Whole newline (contentAt state.card target ++ state.liveText.take count) := by
            rw [hkept, append_nil]
            exact hwhole.contentAt target
          have hlines := archived_append (state.liveText.take count) (hwhole.contentAt target)
          rw [hkept, linesOf_nil, nil_append, ← hkept] at hlines
          exact archiveFailed_settles htakes hsafe hwhole (hwhole.insert hcontent) hlines

/-! ## Every sequence of calls -/

theorem onDisk_append_line (hwhole : WholeFiles state) (hline : newline ∉ line)
    (hlive : after.live = some (state.liveText ++ (line ++ [newline]))) (hcard : after.card = state.card) :
    WholeFiles after ∧ (onDisk after).Perm (onDisk state ++ [line]) := by
  have htext : after.liveText = state.liveText ++ (line ++ [newline]) := by
    rw [State.liveText, hlive, getD_some]
  refine ⟨⟨?_, hcard ▸ hwhole.card⟩, ?_⟩
  · rw [htext]
    exact hwhole.live.append (whole_line hline)
  · rw [onDisk, onDisk, htext, hcard, linesOf_append_line hwhole.live hline, append_assoc, append_assoc]
    exact perm_append_comm.append_left _

theorem exists_rememberStamp_eq (state : State) (stamp : LogStamp) : ∃ firstReal firstRealSeen lastReal,
      rememberStamp state stamp = { state with firstReal, firstRealSeen, lastReal } := by
  cases hset : stamp.clockSet with
  | false => exact ⟨state.firstReal, state.firstRealSeen, state.lastReal, if_pos hset⟩
  | true => exact ⟨_, _, _, if_neg (by simp [hset])⟩

theorem appendText_spec (stamp : LogStamp) (htakes : env.TakesLive) (hline : newline ∉ line)
    (hwhole : WholeFiles state) :
    WholeFiles (appendText env state (line ++ [newline]) stamp).1 ∧
      (appendText env state (line ++ [newline]) stamp).1.carryOvers = state.carryOvers ∧
      (onDisk (appendText env state (line ++ [newline]) stamp).1).Perm (onDisk state ++
        if (appendText env state (line ++ [newline]) stamp).2 then [line] else []) := by
  cases hopens : env.appendOpens with
  | false =>
    simp only [appendText, hopens, if_true, Bool.false_eq_true, if_false, append_nil]
    exact ⟨hwhole, trivial, .refl _⟩
  | true =>
    simp only [appendText, hopens, htakes.2, Bool.true_eq_false, if_false, if_true]
    obtain ⟨firstReal, firstRealSeen, lastReal, hstamped⟩ := exists_rememberStamp_eq
      { state with live := some (state.liveText ++ (line ++ [newline])), lines := state.lines + 1 } stamp
    have hlive := congrArg State.live hstamped
    have hcard := congrArg State.card hstamped
    have hcount := congrArg State.carryOvers hstamped
    obtain ⟨hafter, hlines⟩ := onDisk_append_line hwhole hline hlive hcard
    exact ⟨hafter, hcount, hlines⟩

/-- What a call of `append` leaves: a rotation, and the line behind it when it returns true. -/
theorem append_spec (stamp : LogStamp) (htakes : env.TakesLive) (hline : newline ∉ line)
    (hsafe : ensureLiveDirectory config env →
      SafeRotation config env state (line ++ [newline]).length) (hwhole : WholeFiles state) :
    WholeFiles (append config env state line stamp).1 ∧ (onDisk (append config env state line stamp).1 ++
        droppedBy env state (append config env state line stamp).1).Perm
        (onDisk state ++ if (append config env state line stamp).2 then [line] else []) := by
  cases hfolder : ensureLiveDirectory config env with
  | false =>
    rw [append, if_pos hfolder]
    exact ⟨hwhole, by simpa using (Settles.refl env hwhole).lines⟩
  | true =>
    rw [append, if_neg (by simp [hfolder])]
    have hrotated := rotateIfNeeded_settles htakes (hsafe hfolder) hwhole
    generalize rotateIfNeeded config env state (line ++ [newline]).length = rotated at hrotated
    obtain ⟨hwhole, hcount, hlines⟩ := appendText_spec stamp htakes hline hrotated.whole
    have hdropped : droppedBy env state (appendText env rotated (line ++ [newline]) stamp).1 =
        droppedBy env state rotated := by rw [droppedBy, droppedBy, hcount]
    refine ⟨hwhole, ?_⟩
    rw [hdropped]
    generalize (if (appendText env rotated (line ++ [newline]) stamp).2 then [line] else []) = added
      at hlines ⊢
    calc
      Perm (onDisk (appendText env rotated (line ++ [newline]) stamp).1 ++ droppedBy env state rotated)
        (onDisk rotated ++ added ++ droppedBy env state rotated) := hlines.append_right _
      _ = onDisk rotated ++ (added ++ droppedBy env state rotated) := append_assoc _ _ _
      Perm _ (onDisk rotated ++ (droppedBy env state rotated ++ added)) := perm_append_comm.append_left _
      _ = onDisk rotated ++ droppedBy env state rotated ++ added := (append_assoc _ _ _).symm
      Perm _ (onDisk state ++ added) := hrotated.lines.append_right _

theorem setMaxBytes_settles (htakes : env.TakesLive)
    (hsafe : bytes < state.liveSize → SafeRotation config env { state with maxBytes := bytes } 0)
    (hwhole : WholeFiles state) : Settles env state (setMaxBytes config env state bytes) := by
  have hcapped : WholeFiles { state with maxBytes := bytes } := ⟨hwhole.live, hwhole.card⟩
  simp only [setMaxBytes]
  split_ifs with hlarge
  · exact .of_same_lines (rotateIfNeeded_settles htakes (hsafe hlarge) hcapped) rfl rfl (.refl _)
  · exact .of_same_count hcapped rfl (.refl _)

theorem account_append {disk later dropped more written added : List Bytes}
    (hkept : Perm (disk ++ dropped) written) (hlines : Perm (later ++ more) (disk ++ added)) :
    Perm (later ++ (dropped ++ more)) (written ++ added) := by
  calc
    Perm (later ++ (dropped ++ more)) (later ++ (more ++ dropped)) := perm_append_comm.append_left _
    _ = later ++ more ++ dropped := (append_assoc _ _ _).symm
    Perm _ (disk ++ added ++ dropped) := hlines.append_right _
    _ = disk ++ (added ++ dropped) := append_assoc _ _ _
    Perm _ (disk ++ (dropped ++ added)) := perm_append_comm.append_left _
    _ = disk ++ dropped ++ added := (append_assoc _ _ _).symm
    Perm _ (written ++ added) := hkept.append_right _

structure Sound (journal : Journal) : Prop where
  whole : WholeFiles journal.state
  kept : NothingLost journal

theorem sound_start {live : Option Bytes} (hlive : Whole newline (live.getD []))
    (hcard : ∀ archive ∈ card.entries, Whole newline archive.2) (maxBytes : Nat) :
    Sound (start live card maxBytes) where
  whole := ⟨hlive, hcard⟩
  kept := by
    rw [NothingLost]
    exact (append_nil _).symm ▸ .refl _

theorem sound_next {journal : Journal} {event : Event} (hsafe : SafeStep config journal.state event)
    (hsound : Sound journal) : Sound (next config journal event) := by
  cases event with
  | append line stamp env =>
    obtain ⟨hline, htakes, hrotation⟩ := hsafe
    obtain ⟨hwhole, hlines⟩ := append_spec stamp htakes hline hrotation hsound.whole
    refine ⟨hwhole, (account_append hsound.kept hlines).trans ?_⟩
    rw [next]
    split_ifs with hwritten
    · exact .refl _
    · rw [append_nil]
  | setMaxBytes bytes env =>
    obtain ⟨htakes, hrotation⟩ := hsafe
    obtain ⟨hwhole, hlines⟩ := setMaxBytes_settles htakes hrotation hsound.whole
    rw [← append_nil (onDisk journal.state)] at hlines
    refine ⟨hwhole, (account_append hsound.kept hlines).trans ?_⟩
    rw [append_nil]
    exact .refl _

/-- No line is lost and none is there twice in every run whose rotations are safe. -/
theorem nothing_lost (config : Config) {live : Option Bytes} {card : Card} {maxBytes : Nat}
    {events : List Event} {last : Journal} (hlive : Whole newline (live.getD []))
    (hcard : ∀ archive ∈ card.entries, Whole newline archive.2)
    (hrun : Run (fun journal event journal' ↦
      SafeStep config journal.state event ∧ journal' = next config journal event)
      (start live card maxBytes) events last) : NothingLost last := by
  have hsound : Sound last := by
    refine hrun.preserves ?_ (sound_start hlive hcard maxBytes)
    intro journal event journal' hsound hstep
    rw [hstep.2]
    exact sound_next hstep.1 hsound
  exact hsound.kept

/-! ## Runs of a writer -/

instance (config : Config) (env : Environment) (state : State) :
    Decidable (SafeArchive config env state) := by
  unfold SafeArchive SafeFailure SafeCarry
  split <;> infer_instance

instance (config : Config) (state : State) (event : Event) : Decidable (SafeStep config state event) := by
  cases event <;> unfold SafeStep SafeRotation Environment.TakesLive SafeCarry <;> infer_instance

def sampleConfig : Config :=
  ⟨ascii "/fat/logs/Ntp.log", ascii "/sdcard", ascii "log/Archive/Ntp", ascii "NTP log"⟩

def readyCard : Environment where
  cardMounted := true
  isDirectory _ := true
  makeDir _ := true
  readOpens := true
  sourceOpens := true
  targetOpens := true
  cardTakes := none
  removes := true
  freshOpens := true
  freshTakes := none
  appendOpens := true
  appendTakes := none

def sampleStamp : LogStamp := ⟨⟨2026, 10, 12⟩, true⟩

def appendSample (text : String) (env : Environment) : Event := .append (ascii text) sampleStamp env

/-- Two archives of one day, and a rotation without a card. -/
def quietRun : List Event :=
  [appendSample "first" readyCard, appendSample "second" readyCard, appendSample "third" readyCard,
    appendSample "fourth" { readyCard with cardMounted := false }]

theorem nothing_lost_sample :
    ∃ last, steps (fun journal event ↦ if SafeStep sampleConfig journal.state event then
        some (next sampleConfig journal event) else none) (start none ∅ 8) quietRun = some last ∧
      NothingLost last := by
  have hsteps : (steps (fun journal event ↦ if SafeStep sampleConfig journal.state event then
      some (next sampleConfig journal event) else none) (start none ∅ 8) quietRun).isSome = true := by
    decide +kernel
  obtain ⟨last, hlast⟩ := isSome_iff_exists.mp hsteps
  have hrun : Run (fun journal event journal' ↦ SafeStep sampleConfig journal.state event ∧
      journal' = next sampleConfig journal event) (start none ∅ 8) quietRun last := by
    refine (run_of_steps hlast).mono fun journal event journal' hstep ↦ ?_
    split_ifs at hstep with hsafe
    exact ⟨hsafe, (Option.some.inj hstep).symm⟩
  have hempty : ∀ archive ∈ (∅ : Card).entries, Whole newline archive.2 := by simp
  exact ⟨last, hlast, nothing_lost sampleConfig whole_nil hempty hrun⟩

/-- The third line finds no room, and the card refuses the second archive after three bytes. -/
def refusedArchive : List Event :=
  [appendSample "first" readyCard, appendSample "second" readyCard,
    appendSample "third" { readyCard with cardTakes := some 3 }]

def keptLive : List Event :=
  [appendSample "first" readyCard, appendSample "second" { readyCard with freshOpens := false }]

/-- The first archive is removed with the copy that was refused, and a line that was archived stays
in the live file. -/
theorem line_lost_and_line_twice :
    ¬NothingLost (refusedArchive.foldl (next sampleConfig) (start none ∅ 8)) ∧
    ¬NothingLost (keptLive.foldl (next sampleConfig) (start none ∅ 8)) := by
  unfold NothingLost
  decide +kernel

end DhcpServer.Core.LogFileWriter
