import DhcpServer.Library.Bytes
import DhcpServer.Library.Run

/-!
# Uploads in pieces

`UploadRange::check` and the upload requests for one path, each a task of its own: it reads the size of
the part and checks its numbers, opens the part, appends what comes in, and then keeps, aborts or
publishes. A writer of the transfer engine is a request without a total. A volume tells apart names and
files, and a handle stays on its file. Every byte carries the request and the place in its body it comes
from; `none` stands for bytes nobody wrote.
-/

namespace DhcpServer.Files

open Library Function

structure UploadRange where
  partSize : Nat := 0
  offset : Nat := 0
  chunk : Nat := 0
  total : Nat := 0
  resumable : Bool := false
deriving DecidableEq

namespace UploadRange

/-- `uint64_t` -/
def endOffset (range : UploadRange) : Nat := (range.offset + range.chunk) % 0x10000000000000000

def completes (range : UploadRange) : Bool := range.total ≤ range.endOffset

def neededBytes (range : UploadRange) : Nat := range.total - range.offset

def decimal (number : Nat) : Bytes := ascii (toString number)

def check (partSize offset chunk : Nat) (hasTotal : Bool) (total : Nat) : Except Bytes UploadRange :=
  if !hasTotal then .ok { partSize, chunk, resumable := hasTotal, offset := 0, total := chunk }
  else if chunk = 0 then .error (ascii "empty body")
  else if total = 0 then .error (ascii "total must be greater than zero")
  else if offset ≠ partSize then
    .error (ascii "offset " ++ decimal offset ++ ascii " does not match the partial file (" ++
      decimal partSize ++ ascii " bytes on the device)")
  else if total ≤ offset then
    .error (ascii "offset " ++ decimal offset ++ ascii " is at or past the end of " ++ decimal total ++
      ascii " bytes")
  else
    let range : UploadRange := { partSize, chunk, resumable := hasTotal, offset, total }
    if total < range.endOffset then
      .error (ascii "body of " ++ decimal chunk ++ ascii " bytes at offset " ++ decimal offset ++
        ascii " runs past the end of " ++ decimal total ++ ascii " bytes")
    else .ok range

theorem check_eq_ok {partSize offset chunk total : Nat} {hasTotal : Bool} {range : UploadRange}
    (hok : check partSize offset chunk hasTotal total = .ok range) :
    range.chunk = chunk ∧ range.resumable = hasTotal ∧
      ((hasTotal = false ∧ range.offset = 0 ∧ range.total = chunk) ∨
        (hasTotal = true ∧ range.offset = offset ∧ offset = partSize ∧ range.total = total ∧
          range.endOffset ≤ total)) := by
  unfold check at hok
  dsimp only at hok
  split_ifs at hok with hnone hchunk htotal hoffset hbefore hend
  · cases hok
    exact ⟨rfl, rfl, .inl ⟨by simpa using hnone, rfl, rfl⟩⟩
  · cases hok
    exact ⟨rfl, rfl, .inr ⟨by simpa using hnone, rfl, not_not.mp hoffset, rfl, Nat.not_lt.mp hend⟩⟩

end UploadRange

namespace Uploads

structure Mark where
  request : Nat
  index : Nat
deriving DecidableEq

abbrev Content := List (Option Mark)

structure Handle where
  file : Nat
  position : Nat
deriving DecidableEq

/-- The names of the part and of the file, and the files of the volume. -/
structure Disk where
  part : Option Nat := none
  final : Option Nat := none
  files : Nat → Content := fun _ ↦ []
  /-- what has been written to a file since it was made or truncated, in this order -/
  written : Nat → Content := fun _ ↦ []
  /-- The number of the next new file. -/
  next : Nat := 0

/-- A write over a part of a content; a gap before it is filled by nobody. -/
def writeAt (content : Content) (position : Nat) (bytes : Content) : Content :=
  content.take position ++ List.replicate (position - content.length) none ++ bytes ++
    content.drop (position + bytes.length)

theorem writeAt_length (content bytes : Content) :
    writeAt content content.length bytes = content ++ bytes := by
  simp [writeAt]

namespace Disk

def partSize (disk : Disk) : Nat := (disk.part.map fun file ↦ (disk.files file).length).getD 0

/-- `fopen` of the part: `"ab"` stays at the end of an existing file, `"wb"` empties it. -/
def openPart (disk : Disk) (append : Bool) : Disk × Handle :=
  match disk.part with
  | some file =>
    if append then (disk, ⟨file, (disk.files file).length⟩)
    else
      ({ disk with
          files := update disk.files file []
          written := update disk.written file [] }, ⟨file, 0⟩)
  | none =>
    ({ disk with
        part := some disk.next
        files := update disk.files disk.next []
        written := update disk.written disk.next []
        next := disk.next + 1 }, ⟨disk.next, 0⟩)

def write (disk : Disk) (handle : Handle) (bytes : Content) : Disk × Handle :=
  ({ disk with
      files := update disk.files handle.file
        (writeAt (disk.files handle.file) handle.position bytes)
      written := update disk.written handle.file (disk.written handle.file ++ bytes) },
    { handle with position := handle.position + bytes.length })

end Disk

structure Request where
  offset : Nat := 0
  /-- 0 where the client sends none -/
  total : Nat := 0
  body : Bytes

inductive Phase
  | waiting
  | refused
  /-- The numbers are checked, the part is not open yet. -/
  | accepted (range : UploadRange)
  | writing (range : UploadRange) (handle : Handle) (sent : Nat)
  /-- The part is closed and goes. -/
  | aborting
  /-- The part is complete and closed, the old file goes. -/
  | committing
  | publishing
  | done
deriving DecidableEq

/-- A request between the reading of the size and its last call. -/
def Phase.active : Phase → Bool
  | .waiting | .refused | .done => false
  | _ => true

def Phase.opened : Phase → Bool
  | .waiting | .refused | .accepted _ => false
  | _ => true

/-- A published file: by whom, what is in it, and what has been written to it. -/
structure Published where
  request : Nat
  content : Content
  written : Content

structure State where
  disk : Disk := {}
  phases : Nat → Phase := fun _ ↦ .waiting
  published : List Published := []

def State.setPhase (state : State) (request : Nat) (phase : Phase) : State :=
  { state with phases := update state.phases request phase }

inductive Event
  /-- `openWrite` up to the check of the numbers -/
  | check (request : Nat)
  /-- the volume is full or the part cannot be opened -/
  | refuse (request : Nat)
  | openPart (request : Nat)
  /-- so many bytes of the body come in and reach the file -/
  | receive (request count : Nat)
  /-- the connection or a write fails after so many bytes more -/
  | interrupt (request count : Nat)
  /-- stopped from the task scheduler -/
  | cancel (request : Nat)
  /-- the whole body has come in -/
  | finish (request : Nat)
  /-- the flush before the publishing fails -/
  | flushFails (request : Nat)
  /-- `unlink` of the part in an abort, which may fail -/
  | abort (request : Nat) (fails : Bool)
  /-- `unlink` of the old file, which may fail -/
  | removeFinal (request : Nat) (fails : Bool)
  /-- `rename`, which may fail -/
  | publish (request : Nat) (fails : Bool)
  /-- `discardUpload` -/
  | discard

section System

variable (requests : Nat → Request)

/-- The bytes of a body from `sent` on, with where they come from. -/
def marks (request sent count : Nat) : Content :=
  (List.range count).map fun index ↦ some ⟨request, sent + index⟩

/-- What follows where no more of the body comes: the part is kept for a later continuation, or it
goes. -/
def stopped (range : UploadRange) : Phase := if range.resumable then .done else .aborting

/-- A file of a FAT volume is smaller than 4 GiB. -/
def kFileLimit : Nat := 0x100000000

def State.take (state : State) (request : Nat) (range : UploadRange) (handle : Handle) (sent count : Nat) :
    State :=
  let result := state.disk.write handle (marks request sent count)
  { state with disk := result.1 }.setPhase request (.writing range result.2 (sent + count))

def step (state : State) : Event → Option State
  | .check request =>
    match state.phases request with
    | .waiting =>
      let asked := requests request
      match UploadRange.check state.disk.partSize asked.offset asked.body.length (asked.total ≠ 0)
        asked.total with
      | .error _ => some (state.setPhase request .refused)
      | .ok range => some (state.setPhase request (.accepted range))
    | _ => none
  | .refuse request =>
    match state.phases request with
    | .accepted _ => some (state.setPhase request .refused)
    | _ => none
  | .openPart request =>
    match state.phases request with
    | .accepted range =>
      let result := state.disk.openPart (0 < range.offset)
      some ({ state with disk := result.1 }.setPhase request (.writing range result.2 0))
    | _ => none
  | .receive request count =>
    match state.phases request with
    | .writing range handle sent =>
      if sent + count ≤ range.chunk ∧ handle.position + count < kFileLimit then
        some (state.take request range handle sent count)
      else none
    | _ => none
  | .interrupt request count =>
    match state.phases request with
    | .writing range handle sent =>
      if sent + count ≤ range.chunk ∧ handle.position + count < kFileLimit then
        some ((state.take request range handle sent count).setPhase request (stopped range))
      else none
    | _ => none
  | .cancel request =>
    match state.phases request with
    | .writing _ _ _ => some (state.setPhase request .aborting)
    | _ => none
  | .finish request =>
    match state.phases request with
    | .writing range _ sent =>
      if sent = range.chunk then
        some (state.setPhase request (if range.completes then .committing else stopped range))
      else none
    | _ => none
  | .flushFails request =>
    match state.phases request with
    | .committing => some (state.setPhase request .aborting)
    | _ => none
  | .abort request fails =>
    match state.phases request with
    | .aborting =>
      let disk := if fails then state.disk else { state.disk with part := none }
      some ({ state with disk }.setPhase request .done)
    | _ => none
  | .removeFinal request fails =>
    match state.phases request with
    | .committing =>
      let disk := if fails then state.disk else { state.disk with final := none }
      some ({ state with disk }.setPhase request .publishing)
    | _ => none
  | .publish request fails =>
    match state.phases request with
    | .publishing =>
      match state.disk.part, state.disk.final with
      | some file, none =>
        if fails then some (state.setPhase request .aborting)
        else
          let entry : Published := ⟨request, state.disk.files file, state.disk.written file⟩
          let disk := { state.disk with part := none, final := some file }
          some ({ state with disk, published := state.published ++ [entry] }.setPhase request .done)
      | _, _ => some (state.setPhase request .aborting)
    | _ => none
  | .discard => some { state with disk := { state.disk with part := none } }

def Step (state : State) (event : Event) (state' : State) : Prop := step requests state event = some state'

end System

end Uploads

end DhcpServer.Files
