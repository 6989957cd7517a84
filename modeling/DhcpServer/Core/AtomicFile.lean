import DhcpServer.Library.Bytes
import DhcpServer.Library.Crash

/-!
# Publishing a file

`atomicfile`: a new version is written beside the old one, under the name with `.part` at its end,
and takes the old one's place when it is complete. The storage is a map from names to contents, and
the calls below are the ones a save makes on it. A write that the machine does not survive leaves a
beginning of what it was to write; what a stream still buffers is lost, which is the same as a
crash at an earlier write.
-/

namespace DhcpServer.Core.AtomicFile

open Library List Function

abbrev Storage := Bytes → Option Bytes

inductive Call
  /-- `fopen` with `"wb"`. -/
  | create (path : Bytes)
  /-- `fwrite` at the end of the file. -/
  | append (path bytes : Bytes)
  /-- `fseek` to `offset` and `fwrite`. -/
  | overwrite (path : Bytes) (offset : Nat) (bytes : Bytes)
  | close (path : Bytes)
  | remove (path : Bytes)
  | rename (source target : Bytes)

/-- `bytes` in the place of what stands at `offset`. -/
def patch (offset : Nat) (bytes content : Bytes) : Bytes :=
  content.take offset ++ bytes ++ content.drop (offset + bytes.length)

/-- A call on storage that works. FatFS refuses a rename onto an existing name. -/
def Call.apply (call : Call) (storage : Storage) : Storage :=
  match call with
  | create path => update storage path (some [])
  | append path bytes => update storage path ((storage path).map (· ++ bytes))
  | overwrite path offset bytes =>
    update storage path ((storage path).map (patch offset bytes))
  | close _ => storage
  | remove path => update storage path none
  | rename source target =>
    if (storage source).isSome && (storage target).isNone then
      update (update storage target (storage source)) source none
    else storage

/-- A call that was cut short: `cut` bytes of a write are there, every other call did nothing. -/
def Call.partly (call : Call) (cut : Nat) (storage : Storage) : Storage :=
  match call with
  | append path bytes => (append path (bytes.take cut)).apply storage
  | overwrite path offset bytes => (overwrite path offset (bytes.take cut)).apply storage
  | create _ | close _ | remove _ | rename _ _ => storage

abbrev runCalls : List Call → Storage → Storage := runAll Call.apply

abbrev crashedCalls : List Call → CrashPoint → Storage → Storage := crashed Call.apply Call.partly

def partSuffix : Bytes := [0x2E, 0x70, 0x61, 0x72, 0x74]

def partPath (path : Bytes) : Bytes := path ++ partSuffix

def readable (storage : Storage) (path : Bytes) : Bool := (storage path).isSome

/-- The calls `publish` makes once it has found the part. A `remove` of a name that is not there
is no failure for it. -/
def publishCalls (path : Bytes) : List Call := [.remove path, .rename (partPath path) path]

/-- The storage afterwards and whether the part was published. -/
def publish (path : Bytes) (storage : Storage) : Storage × Bool :=
  if readable storage (partPath path) then (runCalls (publishCalls path) storage, true)
  else (storage, false)

def recover (path : Bytes) (storage : Storage) : Storage :=
  if readable storage path then storage
  else if readable storage (partPath path) then (Call.rename (partPath path) path).apply storage
  else storage

theorem partPath_ne (path : Bytes) : partPath path ≠ path := by
  intro heq
  have hlength := congrArg List.length heq
  simp [partPath, partSuffix] at hlength

def Call.Within (path : Bytes) : Call → Prop
  | create written | append written _ | overwrite written _ _ | close written => written = path
  | remove _ | rename _ _ => False

theorem Call.Within.apply_other {call : Call} {path other : Bytes} (hwithin : call.Within path)
    (hother : other ≠ path) (storage : Storage) : call.apply storage other = storage other := by
  cases call with
  | create written | append written _ | overwrite written _ _ =>
    obtain rfl : written = path := hwithin
    exact update_of_ne hother _ _
  | close written => rfl
  | remove _ | rename _ _ => exact hwithin.elim

theorem Call.Within.partly_other {call : Call} {path other : Bytes} (hwithin : call.Within path)
    (hother : other ≠ path) (cut : Nat) (storage : Storage) :
    call.partly cut storage other = storage other := by
  cases call with
  | append written bytes | overwrite written offset bytes =>
    obtain rfl : written = path := hwithin
    exact update_of_ne hother _ _
  | create _ | close _ => rfl
  | remove _ | rename _ _ => exact hwithin.elim

theorem runCalls_other {calls : List Call} {path other : Bytes}
    (hwithin : ∀ call ∈ calls, call.Within path) (hother : other ≠ path) (storage : Storage) :
    runCalls calls storage other = storage other := by
  refine runAll_keeps (P := fun later : Storage ↦ later other = storage other) ?_ rfl
  intro call hcall later hlater
  exact ((hwithin call hcall).apply_other hother later).trans hlater

theorem crashedCalls_other {calls : List Call} {path other : Bytes}
    (hwithin : ∀ call ∈ calls, call.Within path) (hother : other ≠ path) (point : CrashPoint)
    (storage : Storage) : crashedCalls calls point storage other = storage other := by
  refine crashed_keeps (P := fun later : Storage ↦ later other = storage other) ?_ ?_ rfl point
  · intro call hcall later hlater
    exact ((hwithin call hcall).apply_other hother later).trans hlater
  · intro call hcall cut later hlater
    exact ((hwithin call hcall).partly_other hother cut later).trans hlater

theorem runCalls_append (path : Bytes) (chunks : List Bytes) (storage : Storage) :
    runCalls (chunks.map (Call.append path)) storage path =
      (storage path).map (· ++ chunks.flatten) := by
  induction chunks generalizing storage with
  | nil => simp
  | cons chunk chunks ih =>
    rw [map_cons, runCalls, runAll_cons, ← runCalls, ih]
    simp only [Call.apply, update_self, Option.map_map, flatten_cons]
    congr 1
    funext content
    simp

variable {storage : Storage}

theorem rename_published {path content : Bytes}
    (hpart : storage (partPath path) = some content) (hpath : storage path = none) :
    (Call.rename (partPath path) path).apply storage path = some content := by
  have hdone : ((storage (partPath path)).isSome && (storage path).isNone) := by
    rw [hpart, hpath]
    rfl
  rw [Call.apply, if_pos hdone, update_of_ne (partPath_ne path).symm, update_self, hpart]

theorem removed_part {path content : Bytes}
    (hpart : storage (partPath path) = some content) :
    (Call.remove path).apply storage (partPath path) = some content := by
  rw [Call.apply, update_of_ne (partPath_ne path), hpart]

theorem removed_path (path : Bytes) (storage : Storage) : (Call.remove path).apply storage path = none := by
  rw [Call.apply, update_self]

theorem runCalls_publish {path content : Bytes}
    (hpart : storage (partPath path) = some content) :
    runCalls (publishCalls path) storage path = some content :=
  rename_published (removed_part hpart) (removed_path path storage)

theorem recover_of_readable {path : Bytes}
    (hpath : (storage path).isSome) : recover path storage = storage := by
  rw [recover, readable, if_pos hpath]

theorem recover_of_part {path content : Bytes}
    (hpath : storage path = none) (hpart : storage (partPath path) = some content) :
    recover path storage path = some content := by
  have hmissing : ¬readable storage path := by simp [readable, hpath]
  have hfound : readable storage (partPath path) := by simp [readable, hpart]
  rw [recover, if_neg hmissing, if_pos hfound]
  exact rename_published hpart hpath

/-- A save whose `writes` put `content` into the part, whatever was there before. -/
structure Saves (path : Bytes) (writes : List Call) (content : Bytes) : Prop where
  within : ∀ call ∈ writes, call.Within (partPath path)
  written : ∀ storage, runCalls writes storage (partPath path) = some content

variable {path content : Bytes} {writes : List Call}

variable {point : CrashPoint}

section

variable (hsaves : Saves path writes content)
include hsaves

theorem Saves.crashed_early (hpoint : point.done ≤ writes.length) (storage : Storage) :
    crashedCalls (writes ++ publishCalls path) point storage path = storage path := by
  have hother : path ≠ partPath path := (partPath_ne path).symm
  rcases Nat.lt_or_eq_of_le hpoint with hlt | heq
  · rw [crashedCalls, crashed_append_left _ hlt]
    exact crashedCalls_other hsaves.within hother point storage
  · rw [crashedCalls, crashed_append_right _ (Nat.le_of_eq heq.symm), heq, Nat.sub_self]
    exact runCalls_other hsaves.within hother storage

theorem Saves.runCalls_path (storage : Storage) :
    runCalls (writes ++ publishCalls path) storage path = some content := by
  rw [runCalls, runAll_append]
  exact runCalls_publish (hsaves.written storage)

theorem Saves.crashed_between (hpoint : point.done = writes.length + 1) (storage : Storage) :
    crashedCalls (writes ++ publishCalls path) point storage path = none ∧
      crashedCalls (writes ++ publishCalls path) point storage (partPath path) = some content := by
  have hpart := hsaves.written storage
  rw [crashedCalls, crashed_append_right _ (by omega), hpoint, Nat.add_sub_cancel_left]
  exact ⟨removed_path path _, removed_part hpart⟩

theorem Saves.recover_crashed_late (hpoint : writes.length < point.done) (storage : Storage) :
    recover path (crashedCalls (writes ++ publishCalls path) point storage) path =
      some content := by
  by_cases hbetween : point.done = writes.length + 1
  · obtain ⟨hpath, hpart⟩ := hsaves.crashed_between hbetween storage
    exact recover_of_part hpath hpart
  · have hlength : (writes ++ publishCalls path).length ≤ point.done := by
      simp only [publishCalls, length_append, length_cons, length_nil]
      omega
    have hpath := hsaves.runCalls_path storage
    rw [crashedCalls, crashed_of_length_le hlength, ← runCalls]
    rw [recover_of_readable (by rw [hpath]; rfl), hpath]

end

end DhcpServer.Core.AtomicFile
