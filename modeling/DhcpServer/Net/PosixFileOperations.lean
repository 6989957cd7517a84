import DhcpServer.Library.Bytes
import DhcpServer.Library.FileTree

/-!
# What the shell does to a volume

`PosixFileOperations` is the adapter behind the file shell and the file browser. A volume is a map
from resolved paths to what is there. Every call of the C library may fail, and the calls that fail
are an input: a copy reads and writes through two open files, and what it reads is what the source
holds at that moment.
-/

namespace DhcpServer.Net.PosixFileOperations

open Library

abbrev Volume := Bytes → Option (Node Bytes)

inductive FileOpStatus
  | ok
  | notFound
  | alreadyExists
  | notDirectory
  | isDirectory
  | notEmpty
  | denied
  | noSpace
  | ioError
  | unsupported
deriving DecidableEq

def kCopyChunkBytes : Nat := 4096

/-- The calls that fail, each with the status that `fromErrno` makes of its `errno`. A missing
parent, a full volume and a file that may not be written are all among them. -/
structure Faults where
  statFrom : Option FileOpStatus
  statTo : Option FileOpStatus
  openFrom : Option FileOpStatus
  openTo : Option FileOpStatus
  /-- how many bytes come in before the read of a round fails -/
  reads : Nat → Option Nat
  /-- how many bytes go out before the write of a round fails -/
  writes : Nat → Option (Nat × FileOpStatus)
  flush : Option FileOpStatus
  closeFrom : Bool
  closeTo : Bool
  unlink : Bool

namespace Faults

def none : Faults := ⟨.none, .none, .none, .none, fun _ ↦ .none, fun _ ↦ .none, .none, false, false, false⟩

def closeFails (statTo : Option FileOpStatus) : Faults :=
  { Faults.none with statTo := statTo, closeTo := true }

@[simp] theorem closeFails_statFrom (statTo : Option FileOpStatus) :
    (closeFails statTo).statFrom = .none := rfl

@[simp] theorem closeFails_statTo (statTo : Option FileOpStatus) :
    (closeFails statTo).statTo = statTo := rfl

def StatsAnswer (faults : Faults) : Prop := faults.statFrom = .none ∧ faults.statTo = .none

end Faults

structure Attributes where
  found : Bool
  isDir : Bool
  size : Nat

/-- A missing path is an answer; any other failure of `stat` is one of the call. -/
def attributes (volume : Volume) (path : Bytes) (fault : Option FileOpStatus) : FileOpStatus × Attributes :=
  match fault with
  | some status => (if status = .notFound then .ok else status, ⟨false, false, 0⟩)
  | none =>
    match volume path with
    | none => (.ok, ⟨false, false, 0⟩)
    | some .dir => (.ok, ⟨true, true, 0⟩)
    | some (.file content) => (.ok, ⟨true, false, content.length⟩)

/-- What can be read from a path that is open: a directory gives nothing. -/
def contentOf (volume : Volume) (path : Bytes) : Bytes :=
  match volume path with
  | some (.file content) => content
  | _ => []

/-- `fread` of one round, and whether the stream is in error after it. -/
def readChunk (faults : Faults) (volume : Volume) (source : Bytes) (round : Nat) : Bytes × Bool :=
  let rest := (contentOf volume source).drop (round * kCopyChunkBytes)
  match faults.reads round with
  | some count => (rest.take (min count (kCopyChunkBytes - 1)), true)
  | none => (rest.take kCopyChunkBytes, decide (volume source = some .dir))

def append (volume : Volume) (path chunk : Bytes) : Volume :=
  Function.update volume path (some (.file (contentOf volume path ++ chunk)))

def copyRounds (faults : Faults) (source target : Bytes) :
    Nat → Volume → Nat → Option (Volume × FileOpStatus)
  | 0, _, _ => none
  | fuel + 1, volume, round =>
    let (got, failed) := readChunk faults volume source round
    match (if got = [] then none else faults.writes round) with
    | some (count, status) =>
      some (append volume target (got.take (min count (got.length - 1))), status)
    | none =>
      let written := if got = [] then volume else append volume target got
      if got.length < kCopyChunkBytes then some (written, if failed then .ioError else .ok)
      else copyRounds faults source target fuel written (round + 1)

def statusAfterClose (faults : Faults) (status : FileOpStatus) : FileOpStatus :=
  let flushed := if status = .ok then faults.flush.getD .ok else status
  if flushed = .ok ∧ (faults.closeFrom ∨ faults.closeTo) then .ioError else flushed

/-- What follows the loop: a copy that failed is removed. -/
def finishCopy (faults : Faults) (target : Bytes) (volume : Volume) (status : FileOpStatus) :
    Volume × FileOpStatus :=
  (if statusAfterClose faults status ≠ .ok ∧ ¬faults.unlink then Function.update volume target none
    else volume, statusAfterClose faults status)

def copy (fuel : Nat) (faults : Faults) (volume : Volume) (source target : Bytes) :
    Option (Volume × FileOpStatus) :=
  match faults.openFrom, volume source with
  | some status, _ => some (volume, status)
  | none, none => some (volume, .notFound)
  | none, some _ =>
    match faults.openTo, volume target with
    | some status, _ => some (volume, status)
    | none, some .dir => some (volume, .isDirectory)
    | none, _ =>
      -- "wb" empties the target, or makes it
      let opened := Function.update volume target (some (.file []))
      (copyRounds faults source target fuel opened 0).map fun result ↦
        finishCopy faults target result.1 result.2

/-- The paths other than `target` are as they were. -/
def OnlyAt (target : Bytes) (before after : Volume) : Prop :=
  ∀ path, path ≠ target → after path = before path

namespace OnlyAt

variable {before between after : Volume} {target : Bytes}

theorem refl (volume : Volume) : OnlyAt target volume volume := fun _ _ ↦ rfl

theorem trans (hfirst : OnlyAt target before between) (hsecond : OnlyAt target between after) :
    OnlyAt target before after := by
  intro path hpath
  rw [hsecond path hpath, hfirst path hpath]

theorem update (volume : Volume) (node : Option (Node Bytes)) :
    OnlyAt target volume (Function.update volume target node) :=
  fun _ hpath ↦ Function.update_of_ne hpath node volume

theorem append (volume : Volume) (chunk : Bytes) :
    OnlyAt target volume (PosixFileOperations.append volume target chunk) :=
  update volume _

theorem contentOf_eq {source : Bytes} (honly : OnlyAt target before after)
    (hsource : source ≠ target) : contentOf after source = contentOf before source := by
  rw [contentOf, contentOf, honly source hsource]

end OnlyAt

variable {faults : Faults} {volume after : Volume} {source target : Bytes} {round fuel : Nat}
  {status : FileOpStatus}

theorem readChunk_full (faults : Faults)
    (hfull : ¬(readChunk faults volume source round).1.length < kCopyChunkBytes) :
    (round + 1) * kCopyChunkBytes ≤ (contentOf volume source).length := by
  unfold readChunk at hfull
  have hpos : 0 < kCopyChunkBytes := by decide
  cases hread : faults.reads round with
  | some count =>
    simp only [hread, List.length_take] at hfull
    omega
  | none =>
    simp only [hread, List.length_take, List.length_drop] at hfull
    rw [Nat.add_mul]
    omega

/-- One round: the loop is over, or a whole chunk has been written and the next round follows. -/
theorem copyRounds_succ (faults : Faults) (volume : Volume) (source target : Bytes) (round : Nat) :
    (∃ after status, OnlyAt target volume after ∧
      ∀ fuel, copyRounds faults source target (fuel + 1) volume round = some (after, status)) ∨
    (round + 1) * kCopyChunkBytes ≤ (contentOf volume source).length ∧
      ∃ written, OnlyAt target volume written ∧
        ∀ fuel, copyRounds faults source target (fuel + 1) volume round =
          copyRounds faults source target fuel written (round + 1) := by
  rcases hchunk : readChunk faults volume source round with ⟨got, failed⟩
  cases hwrite : (if got = [] then none else faults.writes round) with
  | some fault =>
    refine .inl ⟨_, fault.2, .append volume (got.take (min fault.1 (got.length - 1))), fun fuel ↦ ?_⟩
    simp only [copyRounds, hchunk, hwrite]
  | none =>
    have hwritten : OnlyAt target volume (if got = [] then volume else append volume target got) := by
      split_ifs
      · exact .refl volume
      · exact .append volume got
    by_cases hlast : got.length < kCopyChunkBytes
    · refine .inl ⟨_, if failed then .ioError else .ok, hwritten, fun fuel ↦ ?_⟩
      simp only [copyRounds, hchunk, hwrite, if_pos hlast]
    · refine .inr ⟨readChunk_full faults (by rwa [hchunk]), _, hwritten, fun fuel ↦ ?_⟩
      simp only [copyRounds, hchunk, hwrite, if_neg hlast]

/-- The loop comes to an end where the source does not grow under it, and touches the target only. -/
theorem exists_copyRounds (faults : Faults) (volume : Volume) (round : Nat)
    (hsource : source ≠ target ∨ contentOf volume source = []) :
    ∃ enough after status, OnlyAt target volume after ∧ ∀ fuel, enough ≤ fuel →
        copyRounds faults source target fuel volume round = some (after, status) := by
  -- the rest of the source gets shorter with every round
  induction hrest : (contentOf volume source).length - round * kCopyChunkBytes using
    Nat.strong_induction_on generalizing volume round with
  | _ rest ih =>
    rcases copyRounds_succ faults volume source target round with
      ⟨after, status, honly, hend⟩ | ⟨hfull, written, honly, hnext⟩
    · refine ⟨1, after, status, honly, fun fuel hfuel ↦ ?_⟩
      obtain ⟨fuel, rfl⟩ := Nat.exists_eq_add_of_le' hfuel
      exact hend fuel
    · have hpos : 0 < kCopyChunkBytes := by decide
      have hne : source ≠ target := by
        refine hsource.resolve_right fun hempty ↦ ?_
        rw [hempty, Nat.add_mul] at hfull
        simp at hfull
        omega
      have hcontent := honly.contentOf_eq hne
      have hless : (contentOf written source).length - (round + 1) * kCopyChunkBytes < rest := by
        rw [hcontent]
        rw [Nat.add_mul] at hfull ⊢
        omega
      obtain ⟨enough, after, status, hafter, hend⟩ := ih _ hless written (round + 1) (.inl hne) rfl
      refine ⟨enough + 1, after, status, honly.trans hafter, fun fuel hfuel ↦ ?_⟩
      obtain ⟨fuel, rfl⟩ := Nat.exists_eq_add_of_le' (Nat.le_of_add_left_le hfuel)
      rw [hnext fuel]
      exact hend fuel (by omega)

theorem finishCopy_onlyAt : OnlyAt target volume (finishCopy faults target volume status).1 := by
  unfold finishCopy
  split_ifs
  · exact .update volume none
  · exact .refl volume

/-- A copy comes to an end and touches the target only, and it touches nothing where the source and
the target are one path and no file. -/
theorem exists_copy (faults : Faults)
    (hsource : source ≠ target ∨ ∀ content, volume source ≠ some (.file content)) :
    ∃ enough after status, OnlyAt target volume after ∧ (source = target → after = volume) ∧
      ∀ fuel, enough ≤ fuel → copy fuel faults volume source target = some (after, status) := by
  cases hopen : faults.openFrom with
  | some status =>
    exact ⟨0, volume, status, .refl volume, fun _ ↦ rfl, fun fuel _ ↦ by simp only [copy, hopen]⟩
  | none =>
    cases hfrom : volume source with
    | none =>
      exact ⟨0, volume, .notFound, .refl volume, fun _ ↦ rfl,
        fun fuel _ ↦ by simp only [copy, hopen, hfrom]⟩
    | some node =>
      cases hopenTo : faults.openTo with
      | some status =>
        exact ⟨0, volume, status, .refl volume, fun _ ↦ rfl,
          fun fuel _ ↦ by simp only [copy, hopen, hfrom, hopenTo]⟩
      | none =>
        by_cases hdir : volume target = some .dir
        · exact ⟨0, volume, .isDirectory, .refl volume, fun _ ↦ rfl,
            fun fuel _ ↦ by simp only [copy, hopen, hfrom, hopenTo, hdir]⟩
        · have hne : source ≠ target := by
            rintro rfl
            cases node with
            | dir => exact hdir hfrom
            | file content => exact (hsource.resolve_left (· rfl)) content hfrom
          obtain ⟨enough, after, status, honly, hend⟩ := exists_copyRounds faults
            (Function.update volume target (some (.file []))) 0 (.inl hne)
          let finished := finishCopy faults target after status
          have hfinished : OnlyAt target volume finished.1 :=
            (OnlyAt.update volume _).trans (honly.trans finishCopy_onlyAt)
          refine ⟨enough, finished.1, finished.2, hfinished, (absurd · hne), fun fuel hfuel ↦ ?_⟩
          simp only [copy, hopen, hfrom, hopenTo, hend fuel hfuel, Option.map_some]
          cases hto : volume target with
          | none => rfl
          | some node =>
            cases node with
            | dir => exact absurd hto hdir
            | file content => rfl

/-- A file copied onto itself is empty before the first read, and gone when the close of the target
fails. -/
theorem copy_self {path content : Bytes} (hfile : volume path = some (.file content))
    (statTo : Option FileOpStatus) :
    copy (fuel + 1) (.closeFails statTo) volume path path =
      some (Function.update volume path none, .ioError) := by
  have hempty : contentOf (Function.update volume path (some (.file []))) path = [] := by
    simp [contentOf]
  simp [copy, copyRounds, readChunk, finishCopy, statusAfterClose, Faults.closeFails, Faults.none,
    hfile, hempty, kCopyChunkBytes]

end DhcpServer.Net.PosixFileOperations
