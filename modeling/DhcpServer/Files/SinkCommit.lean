import DhcpServer.Core.AtomicFile

/-!
# Publishing an upload

`FileSink` with the calls it makes one after another, each of which may fail. The stream holds bytes
back until they reach the file, and the volume remembers what it held after every call, so that it can
be said what was never gone.
-/

namespace DhcpServer.Files.SinkCommit

open Library Core.AtomicFile List Function

structure Volume where
  storage : Storage
  past : List Storage

namespace Volume

def moments (volume : Volume) : List Storage := volume.storage :: volume.past

def set (volume : Volume) (path : Bytes) (content : Option Bytes) : Volume :=
  ⟨update volume.storage path content, volume.moments⟩

def unlink (volume : Volume) (removes : Bool) (path : Bytes) : Volume :=
  if removes then volume.set path none else volume

/-- A file that is there already gives way, where the file system allows the rename at all. -/
def rename (volume : Volume) (renames : Bool) (source target : Bytes) : Bool × Volume :=
  match renames, volume.storage source with
  | true, some content =>
    (true, ⟨update (update volume.storage target (some content)) source none, volume.moments⟩)
  | _, _ => (false, volume)

end Volume

/-- What has not reached the file yet, and the error flag. -/
structure Stream where
  held : Bytes
  error : Bool

/-- How many bytes a call brings into the file, and whether it reports that all is well. -/
structure Outcome where
  through : Nat
  ok : Bool

namespace Stream

variable (stream : Stream) (path : Bytes) (volume : Volume)

def push (through : Nat) (bytes : Bytes) : Stream × Volume :=
  let all := stream.held ++ bytes
  ({ stream with held := all.drop through },
    volume.set path ((volume.storage path).map (· ++ all.take through)))

def fwrite (outcome : Outcome) (bytes : Bytes) : Stream × Volume :=
  let pushed := stream.push path volume outcome.through bytes
  ({ pushed.1 with error := stream.error || !outcome.ok }, pushed.2)

def fflush (outcome : Outcome) : Stream × Volume :=
  if outcome.ok then stream.push path volume stream.held.length []
  else
    let pushed := stream.push path volume outcome.through []
    ({ pushed.1 with error := true }, pushed.2)

def fclose (through : Nat) : Volume := (stream.push path volume through []).2

end Stream

/-- With `"wb"` the file is emptied, with `"ab"` it is continued; both make it where it is missing. -/
def fopen (opens continued : Bool) (path : Bytes) (volume : Volume) : Option Stream × Volume :=
  if opens then
    (some ⟨[], false⟩, volume.set path (some (if continued then (volume.storage path).getD [] else [])))
  else (none, volume)

/-! ## The source's class -/

structure FileSink where
  finalPath : Bytes
  file : Option Stream
  written : UInt64
  committed : Bool := false
  kept : Bool := false

structure Session where
  sink : FileSink
  volume : Volume

def create (finalPath : Bytes) (initialSize : UInt64) (opens : Bool) (volume : Volume) : Session :=
  let opened := fopen opens (0 < initialSize) (partPath finalPath) volume
  ⟨{ finalPath, file := opened.1, written := initialSize }, opened.2⟩

structure CommitOutcome where
  flush : Outcome
  /-- how much of what is still held closing brings into the file -/
  closed : Nat
  /-- the old file goes -/
  unlink : Bool
  rename : Bool
  /-- the part goes after a failure -/
  abort : Bool

namespace Session

variable (session : Session)

def write (outcome : Outcome) (data : Bytes) : Bool × Session :=
  match session.sink.file with
  | none => (false, session)
  | some stream =>
    if data = [] then (true, session)
    else
      let done := stream.fwrite (partPath session.sink.finalPath) session.volume outcome data
      let after := { session.sink with file := some done.1 }
      if outcome.ok then
        (true, ⟨{ after with written := after.written + UInt64.ofNat data.length }, done.2⟩)
      else (false, ⟨after, done.2⟩)

def closeFile (through : Nat) : Session :=
  match session.sink.file with
  | none => session
  | some stream =>
    ⟨{ session.sink with file := none },
      stream.fclose (partPath session.sink.finalPath) session.volume through⟩

def abort (through : Nat) (removes : Bool) : Session :=
  let closed := session.closeFile through
  ⟨{ closed.sink with written := 0 }, if closed.sink.committed then closed.volume
    else closed.volume.unlink removes (partPath closed.sink.finalPath)⟩

def keep (through : Nat) : Session :=
  if session.sink.committed || session.sink.kept then session
  else
    let closed := session.closeFile through
    ⟨{ closed.sink with kept := true }, closed.volume⟩

/-- The flush has been reported as good, and the stream is closed. -/
def publish (outcome : CommitOutcome) : Bool × Session :=
  let path := session.sink.finalPath
  let renamed := (session.volume.unlink outcome.unlink path).rename outcome.rename (partPath path) path
  if renamed.1 then (true, ⟨{ session.sink with committed := true }, renamed.2⟩)
  else (false, Session.abort ⟨session.sink, renamed.2⟩ 0 outcome.abort)

/-- Whether the flush or anything before it failed, and the session with the stream closed. -/
def flushAndClose (stream : Stream) (outcome : CommitOutcome) : Bool × Session :=
  let flushed := stream.fflush (partPath session.sink.finalPath) session.volume outcome.flush
  (flushed.1.error,
    Session.closeFile ⟨{ session.sink with file := some flushed.1 }, flushed.2⟩ outcome.closed)

def commit (outcome : CommitOutcome) : Bool × Session :=
  if session.sink.committed then (true, session)
  else
    match session.sink.file with
    | none => (false, session)
    | some stream =>
      let closed := session.flushAndClose stream outcome
      if closed.1 then (false, closed.2.abort 0 outcome.abort) else closed.2.publish outcome

def destroy (through : Nat) (removes : Bool) : Session :=
  if !session.sink.committed && !session.sink.kept then session.abort through removes else session

end Session

/-! ## A life of a sink -/

inductive Call
  | write (outcome : Outcome) (data : Bytes)
  | abort (through : Nat) (removes : Bool)
  | keep (through : Nat)

def Call.apply (call : Call) (session : Session) : Bytes × Session :=
  match call with
  | write outcome data =>
    let done := session.write outcome data
    (if done.1 then data else [], done.2)
  | abort through removes => ([], session.abort through removes)
  | keep through => ([], session.keep through)

def run (calls : List Call) (session : Session) : Bytes × Session :=
  match calls with
  | [] => ([], session)
  | call :: calls =>
    let done := call.apply session
    let rest := run calls done.2
    (done.1 ++ rest.1, rest.2)

/-- A write of something that goes through; writing nothing always does. -/
def Call.Accepted : Call → Prop
  | write outcome data => data = [] ∨ outcome.ok = true
  | abort _ _ | keep _ => False

/-- One sink from its making to its end, with a commit behind everything else, on a volume as it is found. -/
structure Life where
  path : Bytes
  initialSize : UInt64
  opens : Bool
  storage : Storage
  calls : List Call
  outcome : CommitOutcome
  /-- how much of what is still held the last close brings into the file -/
  through : Nat
  /-- the destructor removes the part, where it tries -/
  destroyed : Bool

namespace Life

variable (life : Life)

def opened : Session := create life.path life.initialSize life.opens ⟨life.storage, []⟩

def sent : Bytes × Session := run life.calls life.opened

def done : Bool × Session := life.sent.2.commit life.outcome

def ended : Session := life.done.2.destroy life.through life.destroyed

def initial : Bytes := if 0 < life.initialSize then (life.storage (partPath life.path)).getD [] else []

def content : Bytes := life.initial ++ life.sent.1

end Life

def OneVersion (path : Bytes) (before : Option Bytes) (content : Bytes) (moment : Storage) : Prop :=
  moment path = before ∨ moment path = some content ∨ moment (partPath path) = some content

/-- The old file goes, the new one does not get its name, and then the part goes, at once or with the
sink. -/
def LosesBoth (outcome : CommitOutcome) (destroyed : Bool) : Prop :=
  outcome.unlink = true ∧ outcome.rename = false ∧ (outcome.abort = true ∨ destroyed = true)

/-- `left` is the volume when the commit answers and `ended` the one when the sink is gone. -/
structure KeepsVersion (path : Bytes) (before : Option Bytes) (content : Bytes) (answer : Bool)
    (left ended : Volume) : Prop where
  published : answer = true → left.storage path = some content
  kept : answer = false → left.storage path = before ∨ left.storage (partPath path) = some content
  always : ∀ moment ∈ ended.moments, OneVersion path before content moment

/-! ## What stands under the destination until the commit -/

def Stands (path : Bytes) (before : Option Bytes) (volume : Volume) : Prop :=
  ∀ moment ∈ volume.moments, moment path = before

variable {path part bytes data content there : Bytes} {before : Option Bytes} {volume : Volume}
  {stream : Stream} {session ended : Session} {outcome : Outcome} {through : Nat} {removes : Bool}
  {call : Call} {calls : List Call}

section

variable (hstands : Stands path before volume)
include hstands

theorem Stands.set (hother : part ≠ path) (content : Option Bytes) :
    Stands path before (volume.set part content) := by
  have hnow := hstands volume.storage mem_cons_self
  exact forall_mem_cons.mpr ⟨(update_of_ne hother.symm _ _).trans hnow, hstands⟩

theorem Stands.unlink (hother : part ≠ path) (removes : Bool) :
    Stands path before (volume.unlink removes part) := by
  unfold Volume.unlink
  split_ifs
  · exact hstands.set hother none
  · exact hstands

theorem Stands.push (hother : part ≠ path) (through : Nat)
    (bytes : Bytes) : Stands path before (stream.push part volume through bytes).2 :=
  hstands.set hother _

theorem Stands.fflush (hother : part ≠ path) (outcome : Outcome) :
    Stands path before (stream.fflush part volume outcome).2 := by
  unfold Stream.fflush
  split_ifs
  · exact hstands.push hother _ _
  · exact hstands.push hother _ _

theorem Stands.fopen (hother : part ≠ path) (opens continued : Bool) :
    Stands path before (fopen opens continued part volume).2 := by
  cases opens with
  | true => exact hstands.set hother _
  | false => exact hstands

end

structure Sending (path : Bytes) (before : Option Bytes) (session : Session) : Prop where
  finalPath : session.sink.finalPath = path
  uncommitted : session.sink.committed = false
  stands : Stands path before session.volume

section

variable (hsending : Sending path before session)
include hsending

theorem Sending.closeFile (through : Nat) : Sending path before (session.closeFile through) := by
  obtain ⟨rfl, huncommitted, hstands⟩ := hsending
  unfold Session.closeFile
  split
  · exact ⟨rfl, huncommitted, hstands⟩
  · exact ⟨rfl, huncommitted, hstands.push (partPath_ne _) through []⟩

theorem Sending.abort (through : Nat) (removes : Bool) :
    Sending path before (session.abort through removes) := by
  obtain ⟨hpath, huncommitted, hstands⟩ := hsending.closeFile through
  refine ⟨hpath, huncommitted, ?_⟩
  simp only [Session.abort, huncommitted, Bool.false_eq_true, if_false, hpath]
  exact hstands.unlink (partPath_ne path) removes

theorem Sending.keep (through : Nat) : Sending path before (session.keep through) := by
  unfold Session.keep
  split_ifs
  · exact hsending
  · obtain ⟨hpath, huncommitted, hstands⟩ := hsending.closeFile through
    exact ⟨hpath, huncommitted, hstands⟩

theorem Sending.write (outcome : Outcome) (data : Bytes) :
    Sending path before (session.write outcome data).2 := by
  obtain ⟨rfl, huncommitted, hstands⟩ := hsending
  unfold Session.write
  split
  · exact ⟨rfl, huncommitted, hstands⟩
  · split_ifs
    · exact ⟨rfl, huncommitted, hstands⟩
    · exact ⟨rfl, huncommitted, hstands.push (partPath_ne _) _ _⟩
    · exact ⟨rfl, huncommitted, hstands.push (partPath_ne _) _ _⟩

theorem Sending.apply (call : Call) : Sending path before (call.apply session).2 := by
  cases call with
  | write outcome data => exact hsending.write outcome data
  | abort through removes => exact hsending.abort through removes
  | keep through => exact hsending.keep through

theorem Sending.run (calls : List Call) : Sending path before (run calls session).2 := by
  induction calls generalizing session with
  | nil => exact hsending
  | cons call calls ih => exact ih (hsending.apply call)

theorem Sending.destroy (through : Nat) (removes : Bool) :
    Sending path before (session.destroy through removes) := by
  unfold Session.destroy
  split_ifs
  · exact hsending.abort through removes
  · exact hsending

end

theorem Volume.storage_unlink (volume : Volume) (removes : Bool) (part other : Bytes) :
    (volume.unlink removes part).storage other =
      if removes = true ∧ other = part then none else volume.storage other := by
  cases removes with
  | false => simp [Volume.unlink]
  | true => simp [Volume.unlink, Volume.set, update_apply]

/-! ## What has been taken -/

/-- The file and the stream hold all that was taken, one behind the other. -/
structure Clean (content : Bytes) (session : Session) : Prop where
  unkept : session.sink.kept = false
  holds : ∃ stream there, session.sink.file = some stream ∧ stream.error = false ∧
    session.volume.storage (partPath session.sink.finalPath) = some there ∧ there ++ stream.held = content

def Spoiled (session : Session) : Prop := ∀ stream ∈ session.sink.file, stream.error = true

theorem Clean.write (hclean : Clean content session) (hok : data = [] ∨ outcome.ok) :
    (session.write outcome data).1 ∧ Clean (content ++ data) (session.write outcome data).2 := by
  obtain ⟨hunkept, stream, there, hfile, herror, hthere, rfl⟩ := hclean
  by_cases hdata : data = []
  · subst hdata
    rw [append_nil]
    simp only [Session.write, hfile, if_true]
    exact ⟨trivial, hunkept, stream, there, hfile, herror, hthere, rfl⟩
  · have houtcome := hok.resolve_left hdata
    simp only [Session.write, hfile, if_neg hdata, if_pos houtcome]
    refine ⟨trivial, hunkept, _, there ++ (stream.held ++ data).take outcome.through, rfl, ?_, ?_, ?_⟩
    · rw [Stream.fwrite, herror, houtcome]
      rfl
    · simp [Stream.fwrite, Stream.push, Volume.set, hthere]
    · simp [Stream.fwrite, Stream.push]

theorem Spoiled.closeFile (through : Nat) : Spoiled (session.closeFile through) := by
  unfold Session.closeFile
  split
  case h_1 hfile =>
    intro stream hstream
    rw [hfile] at hstream
    cases hstream
  case h_2 =>
    intro stream hstream
    cases hstream

theorem spoiled_write (hspoils : ¬(data = [] ∨ outcome.ok)) :
    Spoiled (session.write outcome data).2 := by
  obtain ⟨hdata, hok⟩ := not_or.mp hspoils
  unfold Session.write
  split
  case h_1 hfile =>
    intro stream hstream
    rw [hfile] at hstream
    cases hstream
  case h_2 stream hfile =>
    simp only [if_neg hdata, if_neg hok]
    intro after hafter
    cases hafter
    simp [Stream.fwrite, hok]

theorem Spoiled.write (hspoiled : Spoiled session) (outcome : Outcome) (data : Bytes) :
    Spoiled (session.write outcome data).2 := by
  unfold Session.write
  split
  case h_1 => exact hspoiled
  case h_2 stream hfile =>
    have herror := hspoiled stream hfile
    split_ifs
    · exact hspoiled
    · intro after hafter
      cases hafter
      simp [Stream.fwrite, herror]
    · intro after hafter
      cases hafter
      simp [Stream.fwrite, herror]

theorem Spoiled.keep (hspoiled : Spoiled session) (through : Nat) : Spoiled (session.keep through) := by
  unfold Session.keep
  split_ifs
  · exact hspoiled
  · exact closeFile through

theorem Spoiled.apply (hspoiled : Spoiled session) (call : Call) : Spoiled (call.apply session).2 := by
  cases call with
  | write outcome data => exact hspoiled.write outcome data
  | abort through removes => exact closeFile through
  | keep through => exact hspoiled.keep through

theorem Spoiled.run (hspoiled : Spoiled session) (calls : List Call) : Spoiled (run calls session).2 := by
  induction calls generalizing session with
  | nil => exact hspoiled
  | cons call calls ih => exact ih (hspoiled.apply call)

theorem Sending.spoiled_apply (hsending : Sending path before session) (hclean : Clean content session)
    (hrefused : ¬call.Accepted) : Spoiled (call.apply session).2 := by
  cases call with
  | write outcome data => exact spoiled_write hrefused
  | abort through removes => exact Spoiled.closeFile through
  | keep through =>
    have hopen : (session.sink.committed || session.sink.kept) = false := by
      rw [hsending.uncommitted, hclean.unkept]
      rfl
    simp only [Call.apply, Session.keep, hopen, Bool.false_eq_true, if_false]
    exact Spoiled.closeFile through

theorem Clean.run (hsending : Sending path before session) (hclean : Clean content session)
    (haccepted : ∀ call ∈ calls, call.Accepted) :
    Clean (content ++ (run calls session).1) (run calls session).2 := by
  induction calls generalizing session content with
  | nil => rwa [SinkCommit.run, append_nil]
  | cons call calls ih =>
    obtain ⟨hcall, hcalls⟩ := forall_mem_cons.mp haccepted
    cases call with
    | abort | keep => exact hcall.elim
    | write outcome data =>
      obtain ⟨hanswer, hwritten⟩ := hclean.write hcall
      have hrest := ih (hsending.write outcome data) hwritten hcalls
      simp only [SinkCommit.run, Call.apply, hanswer, if_true]
      rwa [← append_assoc]

theorem Sending.spoiled_run (hsending : Sending path before session) (hclean : Clean content session)
    (hrefused : ¬∀ call ∈ calls, call.Accepted) : Spoiled (SinkCommit.run calls session).2 := by
  induction calls generalizing session content with
  | nil => exact absurd (by simp) hrefused
  | cons call calls ih =>
    by_cases hcall : call.Accepted
    · have hrest : ¬∀ call ∈ calls, call.Accepted :=
        fun hcalls ↦ hrefused (forall_mem_cons.mpr ⟨hcall, hcalls⟩)
      cases call with
      | abort | keep => exact hcall.elim
      | write outcome data => exact ih (hsending.write outcome data) (hclean.write hcall).2 hrest
    · exact (hsending.spoiled_apply hclean hcall).run calls

/-! ## The commit -/

variable {commitOutcome : CommitOutcome}

theorem Sending.flushAndClose (hsending : Sending path before session) (stream : Stream)
    (outcome : CommitOutcome) : Sending path before (session.flushAndClose stream outcome).2 := by
  obtain ⟨rfl, huncommitted, hstands⟩ := hsending
  have hflushed : Stands session.sink.finalPath before
      (stream.fflush (partPath session.sink.finalPath) session.volume outcome.flush).2 :=
    hstands.fflush (partPath_ne session.sink.finalPath) outcome.flush
  unfold Session.flushAndClose
  dsimp only
  refine Sending.closeFile ?_ outcome.closed
  exact ⟨rfl, huncommitted, hflushed⟩

theorem Sending.commit_failed (hsending : Sending path before session)
    (hfailed : ∀ stream ∈ session.sink.file, (session.flushAndClose stream commitOutcome).1) :
    (session.commit commitOutcome).1 = false ∧ Sending path before (session.commit commitOutcome).2 := by
  simp only [Session.commit, hsending.uncommitted, Bool.false_eq_true, if_false]
  split
  case h_1 => exact ⟨rfl, hsending⟩
  case h_2 stream hfile =>
    rw [if_pos (hfailed stream hfile)]
    exact ⟨rfl, (hsending.flushAndClose stream commitOutcome).abort 0 _⟩

theorem Spoiled.flush_failed (hspoiled : Spoiled session) :
    ∀ stream ∈ session.sink.file, (session.flushAndClose stream commitOutcome).1 := by
  intro stream hstream
  simp only [Session.flushAndClose, Stream.fflush]
  split_ifs
  · exact hspoiled stream hstream
  · rfl

theorem flush_failed_of_not_ok (hflush : commitOutcome.flush.ok = false) :
    ∀ stream ∈ session.sink.file, (session.flushAndClose stream commitOutcome).1 := by
  intro stream hstream
  simp [Session.flushAndClose, Stream.fflush, hflush]

/-- All that was taken is in the part, and the stream is closed. -/
structure Complete (path : Bytes) (before : Option Bytes) (content : Bytes) (session : Session) : Prop
    extends Sending path before session where
  unkept : session.sink.kept = false
  closed : session.sink.file = none
  whole : session.volume.storage (partPath path) = some content

theorem Clean.commit_flushed (hsending : Sending path before session) (hclean : Clean content session)
    (hflush : commitOutcome.flush.ok) :
    ∃ closed, Complete path before content closed ∧
      session.commit commitOutcome = closed.publish commitOutcome := by
  obtain ⟨hunkept, stream, there, hfile, herror, hthere, hcontent⟩ := hclean
  have hclosed := hsending.flushAndClose stream commitOutcome
  have hclear : (session.flushAndClose stream commitOutcome).1 = false := by
    simp [Session.flushAndClose, Stream.fflush, hflush, Stream.push, herror]
  refine ⟨_, ⟨hclosed, hunkept, rfl, ?_⟩, ?_⟩
  · rw [← hsending.finalPath]
    simp [Session.flushAndClose, Session.closeFile, Stream.fclose, Stream.fflush, hflush, Stream.push,
      Volume.set, hthere, hcontent]
  · simp only [Session.commit, hsending.uncommitted, hfile, hclear, Bool.false_eq_true, if_false]

theorem Sending.keepsVersion (hsending : Sending path before session) (hended : Sending path before ended) :
    KeepsVersion path before content false session.volume ended.volume where
  published := fun hanswer ↦ (Bool.false_ne_true hanswer).elim
  kept := fun _ ↦ .inl (hsending.stands _ mem_cons_self)
  always := fun moment hmoment ↦ .inl (hended.stands moment hmoment)

namespace Complete

variable {closed : Session} (hcomplete : Complete path before content closed)

include hcomplete

theorem part_unlink (removes : Bool) :
    (closed.volume.unlink removes path).storage (partPath path) = some content := by
  unfold Volume.unlink
  split_ifs
  · exact (update_of_ne (partPath_ne path) _ _).trans hcomplete.whole
  · exact hcomplete.whole

theorem oneVersion_unlink (removes : Bool) :
    ∀ moment ∈ (closed.volume.unlink removes path).moments, OneVersion path before content moment := by
  have hpart := hcomplete.part_unlink removes
  have hbefore : ∀ moment ∈ closed.volume.moments, OneVersion path before content moment :=
    fun moment hmoment ↦ .inl (hcomplete.stands moment hmoment)
  unfold Volume.unlink at hpart ⊢
  split_ifs at hpart ⊢
  · exact forall_mem_cons.mpr ⟨.inr (.inr hpart), hbefore⟩
  · exact hbefore

theorem sending_unlink (removes : Bool) (hnothing : removes → before = none) :
    Sending path before ⟨closed.sink, closed.volume.unlink removes path⟩ := by
  refine ⟨hcomplete.finalPath, hcomplete.uncommitted, ?_⟩
  cases removes with
  | false => exact hcomplete.stands
  | true =>
    have hgone : update closed.volume.storage path none path = before := by
      rw [update_self, hnothing rfl]
    exact forall_mem_cons.mpr ⟨hgone, hcomplete.stands⟩

theorem publish_renamed (hrename : commitOutcome.rename) (through : Nat) (destroyed : Bool) :
    KeepsVersion path before content (closed.publish commitOutcome).1
      (closed.publish commitOutcome).2.volume
      ((closed.publish commitOutcome).2.destroy through destroyed).volume := by
  have hpart := hcomplete.part_unlink commitOutcome.unlink
  have hversions := hcomplete.oneVersion_unlink commitOutcome.unlink
  have hnamed : update
      (update (closed.volume.unlink commitOutcome.unlink path).storage path (some content))
      (partPath path) none path = some content := by
    rw [update_of_ne (partPath_ne path).symm, update_self]
  simp only [Session.publish, hcomplete.finalPath, hrename, Volume.rename, hpart, if_true,
    Session.destroy, Bool.not_true, Bool.false_and, Bool.false_eq_true, if_false]
  exact ⟨fun _ ↦ hnamed, fun hanswer ↦ (Bool.false_ne_true hanswer.symm).elim,
    forall_mem_cons.mpr ⟨.inr (.inl hnamed), hversions⟩⟩

theorem publish_refused (hrename : commitOutcome.rename = false) : closed.publish commitOutcome =
      (false, ⟨{ closed.sink with written := 0 },
        (closed.volume.unlink commitOutcome.unlink path).unlink commitOutcome.abort (partPath path)⟩) := by
  simp only [Session.publish, hrename, Volume.rename, Session.abort, Session.closeFile, hcomplete.closed,
    hcomplete.uncommitted, hcomplete.finalPath, Bool.false_eq_true, if_false]

theorem destroy_refused (hrename : commitOutcome.rename = false) (through : Nat) (destroyed : Bool) :
    ((closed.publish commitOutcome).2.destroy through destroyed).volume =
      ((closed.volume.unlink commitOutcome.unlink path).unlink commitOutcome.abort (partPath path)).unlink
        destroyed (partPath path) := by
  rw [hcomplete.publish_refused hrename]
  simp only [Session.destroy, Session.abort, Session.closeFile, hcomplete.closed, hcomplete.uncommitted,
    hcomplete.unkept, hcomplete.finalPath, Bool.not_false, Bool.true_and, Bool.false_eq_true, if_true,
    if_false]

theorem not_keepsVersion (hlost : before ≠ none) (hloses : LosesBoth commitOutcome destroyed) :
    ¬KeepsVersion path before content (closed.publish commitOutcome).1
      (closed.publish commitOutcome).2.volume
      ((closed.publish commitOutcome).2.destroy through destroyed).volume := by
  obtain ⟨hunlink, hrename, hgoes⟩ := hloses
  rintro ⟨-, -, halways⟩
  rw [hcomplete.destroy_refused hrename] at halways
  have hnow := halways _ mem_cons_self
  have hdestination := (partPath_ne path).symm
  simp only [OneVersion, Volume.storage_unlink, hunlink, hdestination, and_false, and_true, and_self,
    if_true, if_false, reduceCtorEq, false_or] at hnow
  rcases hnow with hsame | hpart
  · exact hlost hsame.symm
  · rcases hgoes with habort | hdestroyed
    · simp [habort] at hpart
    · simp [hdestroyed] at hpart

theorem publish_keepsVersion_iff (through : Nat) (destroyed : Bool) :
    KeepsVersion path before content (closed.publish commitOutcome).1
        (closed.publish commitOutcome).2.volume
        ((closed.publish commitOutcome).2.destroy through destroyed).volume ↔
      ¬(before ≠ none ∧ LosesBoth commitOutcome destroyed) := by
  refine ⟨fun hkeeps hloses ↦ hcomplete.not_keepsVersion hloses.1 hloses.2 hkeeps, fun hfine ↦ ?_⟩
  cases hrename : commitOutcome.rename with
  | true => exact hcomplete.publish_renamed hrename through destroyed
  | false =>
    rw [hcomplete.destroy_refused hrename, hcomplete.publish_refused hrename]
    by_cases hnothing : commitOutcome.unlink = true → before = none
    · have hstands := (hcomplete.sending_unlink commitOutcome.unlink hnothing).stands
      have hleft := hstands.unlink (partPath_ne path) commitOutcome.abort
      exact ⟨fun hanswer ↦ (Bool.false_ne_true hanswer).elim, fun _ ↦ .inl (hleft _ mem_cons_self),
        fun moment hmoment ↦ .inl (hleft.unlink (partPath_ne path) destroyed moment hmoment)⟩
    · obtain ⟨hunlink, hlost⟩ := Classical.not_imp.mp hnothing
      have hstays : ¬(commitOutcome.abort = true ∨ destroyed = true) :=
        fun hgoes ↦ hfine ⟨hlost, hunlink, hrename, hgoes⟩
      obtain ⟨habort, hdestroyed⟩ := not_or.mp hstays
      simp only [Volume.unlink, if_neg habort, if_neg hdestroyed]
      exact ⟨fun hanswer ↦ (Bool.false_ne_true hanswer).elim,
        fun _ ↦ .inr (hcomplete.part_unlink commitOutcome.unlink),
        hcomplete.oneVersion_unlink commitOutcome.unlink⟩

end Complete

/-! ## Over the life of a sink -/

namespace Life

variable (life : Life)

/-- Everything was taken and flushed, there was an old version, and it goes with the new one. -/
def LosesBoth : Prop :=
  life.opens = true ∧ (∀ call ∈ life.calls, call.Accepted) ∧ life.outcome.flush.ok = true ∧
    life.storage life.path ≠ none ∧ SinkCommit.LosesBoth life.outcome life.destroyed

theorem sending_opened : Sending life.path (life.storage life.path) life.opened := by
  have hstart : Stands life.path (life.storage life.path) ⟨life.storage, []⟩ := by
    intro moment hmoment
    rw [mem_singleton.mp hmoment]
  exact ⟨rfl, rfl, hstart.fopen (partPath_ne life.path) _ _⟩

theorem clean_opened (hopens : life.opens) : Clean life.initial life.opened := by
  refine ⟨rfl, ⟨[], false⟩, life.initial, ?_, rfl, ?_, append_nil _⟩
  · simp [opened, create, fopen, hopens]
  · simp [opened, create, fopen, hopens, Volume.set, initial]

theorem spoiled_opened (hopens : life.opens = false) : Spoiled life.opened := by
  intro stream hstream
  simp [opened, create, fopen, hopens] at hstream

theorem sending_sent : Sending life.path (life.storage life.path) life.sent.2 :=
  life.sending_opened.run life.calls

theorem keepsVersion_of_failed
    (hfailed : ∀ stream ∈ life.sent.2.sink.file, (life.sent.2.flushAndClose stream life.outcome).1) :
    KeepsVersion life.path (life.storage life.path) life.content life.done.1 life.done.2.volume
      life.ended.volume := by
  obtain ⟨hanswer, hleft⟩ := life.sending_sent.commit_failed hfailed
  rw [done, hanswer]
  exact hleft.keepsVersion (hleft.destroy life.through life.destroyed)

/-- A commit keeps one version or the other but where the old file goes, the new one does not get its
name, and the part is removed for that. -/
theorem commit_keepsVersion_iff :
    KeepsVersion life.path (life.storage life.path) life.content life.done.1 life.done.2.volume
      life.ended.volume ↔ ¬life.LosesBoth := by
  by_cases hall : life.opens = true ∧ (∀ call ∈ life.calls, call.Accepted) ∧ life.outcome.flush.ok = true
  · obtain ⟨hopens, haccepted, hflush⟩ := hall
    have hclean := Clean.run life.sending_opened (life.clean_opened hopens) haccepted
    obtain ⟨closed, hcomplete, hcommit⟩ := hclean.commit_flushed life.sending_sent hflush
    have hloses : life.LosesBoth ↔
        life.storage life.path ≠ none ∧ SinkCommit.LosesBoth life.outcome life.destroyed :=
      ⟨fun hloses ↦ hloses.2.2.2, fun hloses ↦ ⟨hopens, haccepted, hflush, hloses⟩⟩
    rw [hloses, ended, done, hcommit]
    exact hcomplete.publish_keepsVersion_iff life.through life.destroyed
  · have hkept : ¬life.LosesBoth := fun hloses ↦ hall ⟨hloses.1, hloses.2.1, hloses.2.2.1⟩
    refine iff_of_true (life.keepsVersion_of_failed ?_) hkept
    cases hflush : life.outcome.flush.ok with
    | false => exact flush_failed_of_not_ok hflush
    | true =>
      refine Spoiled.flush_failed ?_
      cases hopens : life.opens with
      | false => exact (life.spoiled_opened hopens).run life.calls
      | true =>
        exact life.sending_opened.spoiled_run (life.clean_opened hopens)
          fun haccepted ↦ hall ⟨hopens, haccepted, hflush⟩

end Life

/-- `/fat/a` is to become `b`. The old file goes, the rename fails, and the part is removed: both are
gone. -/
def lostLife : Life where
  path := ascii "/fat/a"
  initialSize := 0
  opens := true
  storage := fun path ↦ if path = ascii "/fat/a" then some (ascii "a") else none
  calls := [.write ⟨1, true⟩ (ascii "b")]
  outcome := ⟨⟨0, true⟩, 0, true, false, true⟩
  through := 0
  destroyed := false

theorem both_versions_lost : lostLife.done.1 = false ∧ lostLife.storage lostLife.path = some (ascii "a") ∧
      lostLife.content = ascii "b" ∧ lostLife.done.2.volume.storage lostLife.path = none ∧
      lostLife.done.2.volume.storage (partPath lostLife.path) = none ∧
      ¬KeepsVersion lostLife.path (lostLife.storage lostLife.path) lostLife.content lostLife.done.1
        lostLife.done.2.volume lostLife.ended.volume := by
  have hanswer : lostLife.done.1 = false := by decide
  have hgone : lostLife.done.2.volume.storage lostLife.path = none := by decide
  have hpart : lostLife.done.2.volume.storage (partPath lostLife.path) = none := by decide
  refine ⟨hanswer, by decide, by decide, hgone, hpart, fun hkeeps ↦ ?_⟩
  rcases hkeeps.kept hanswer with hold | hnew
  · rw [hgone] at hold
    exact absurd hold (by decide)
  · rw [hpart] at hnew
    cases hnew

end DhcpServer.Files.SinkCommit
