import DhcpServer.Files.TextSaves
import DhcpServer.Files.TransferEngine

/-!
# The requests of the file explorer

The handlers of `RestApi` for files: list, text, download, the small operations, upload, and the start of a
transfer. Each is served to its end; a `Moment` says how its calls go and what comes in with it.
-/

namespace DhcpServer.Files

open Library Storage.PathUtil Web.Json FileManager

structure Window where
  data : Bytes
  fate : Fate := {}
  /-- what reaches the file where the write fails -/
  reach : Nat := 0
  /-- the operator stops the upload -/
  stop : Bool := false

structure Moment where
  calls : Calls := {}
  /-- modification times by volume and path -/
  mtime : Bytes → Bytes → Nat := fun _ _ ↦ 0
  totalBytes : Bytes → Nat := fun _ ↦ 0
  freeBytes : Bytes → Nat := fun _ ↦ 0
  /-- too many transfers run, or there is no task for one more -/
  refusal : Option Bytes := none
  /-- the body of an upload -/
  windows : List Window := []

def Moment.fate (moment : Moment) (call : Nat) : Fate := moment.calls.fate call

structure Explorer where
  volumes : Bytes → Tree
  transferState : TransferEngine.TransferReport := {}
  /-- the request the transfer task works on -/
  transferReq : Option TransferEngine.TransferRequest := none
  transferCancel : Bool := false

def Explorer.setVolume (explorer : Explorer) (volume : Bytes) (tree : Tree) : Explorer :=
  { explorer with volumes := Function.update explorer.volumes volume tree }

structure ListPayload where
  volume : Bytes
  path : Bytes
  mounted : Bool := true
  totalBytes : Nat
  freeBytes : Nat
  truncated : Bool
  /-- with their modification times -/
  entries : List (FileEntry × Nat)
deriving DecidableEq

structure TextPayload where
  volume : Bytes
  path : Bytes
  text : Bytes
  size : Nat
  mtime : Nat
deriving DecidableEq

inductive Response
  | ok
  | started
  /-- `sendFileResult` of anything but `ok` -/
  | failed (status : FileStatus) (detail : Bytes)
  /-- an error with its own text -/
  | refused (message : Bytes)
  | emptyBody
  | listing (payload : ListPayload)
  | text (payload : TextPayload)
  | saved (size mtime : Nat)
  | file (disposition body : Bytes)
  | conflicts (names : List Bytes)
  | transfer (report : TransferEngine.TransferReport)
  | uploaded (bytes : Nat) (path : Bytes)
  | partialUpload (offset total : Nat)
  | offset (bytes : Nat)
deriving DecidableEq

def sendFailure (failure : Failure) : Response := .failed failure.status (failure.detail.getD [])

def shownPath (path : Bytes) : Bytes := (normalize path).getD path

def kMaxListEntries : Nat := 512

def tolower (byte : UInt8) : UInt8 := if 0x41 ≤ byte && byte ≤ 0x5A then byte + 0x20 else byte

def nameLess : Bytes → Bytes → Bool
  | [], other => !other.isEmpty
  | _ :: _, [] => false
  | byte :: rest, byte' :: rest' =>
    if tolower byte ≠ tolower byte' then tolower byte < tolower byte' else nameLess rest rest'

def entryLess (entry entry' : FileEntry) : Bool :=
  if entry.isDir ≠ entry'.isDir then entry.isDir else nameLess entry.name entry'.name

def list (fate : Fate) (tree : Tree) (path : Bytes) : Except Failure (List FileEntry) :=
  (scan fate tree path).map fun entries ↦
    (entries.take kMaxListEntries).mergeSort fun entry entry' ↦ !entryLess entry' entry

def handleGetFileList (moment : Moment) (explorer : Explorer) (volume path : Option Bytes) : Response :=
  match volume with
  | none => .failed .notFound []
  | some volume =>
    let path := path.getD [slash]
    match list (moment.fate 0) (explorer.volumes volume) path with
    | .error failure => sendFailure failure
    | .ok entries =>
      let norm := (normalize path).getD [slash]
      .listing
        { volume
          path := norm
          totalBytes := moment.totalBytes volume
          freeBytes := moment.freeBytes volume
          truncated := kMaxListEntries ≤ entries.length
          entries := entries.map fun entry ↦
            (entry, moment.mtime volume (TransferEngine.joinRel norm entry.name)) }

def handleGetFileText (moment : Moment) (explorer : Explorer) (volume path : Option Bytes) : Response :=
  match volume, path with
  | none, _ => .failed .notFound []
  | some _, none => .failed .invalidPath []
  | some volume, some path =>
    match stat (moment.fate 0) (explorer.volumes volume) path with
    | .error failure => sendFailure failure
    | .ok info =>
      if info.isDir then .failed .invalidPath []
      else if TextSaves.kMaxTextBytes < info.size then .failed .tooLarge []
      else
        match openRead (moment.fate 1) (explorer.volumes volume) path with
        | .error failure => sendFailure failure
        | .ok text =>
          if TextSaves.kMaxTextBytes < text.length then .failed .tooLarge []
          else if (moment.fate 2).refused.isSome then .failed .ioError []
          else if !TextSaves.looksLikeText text then .failed .notText []
          else
            .text
              { volume
                path := shownPath path
                text
                size := text.length
                mtime := moment.mtime volume (shownPath path) }

def hexDigits : Bytes := ascii "0123456789ABCDEF"

def isAttrChar (byte : UInt8) : Bool :=
  (0x41 ≤ byte && byte ≤ 0x5A) || (0x61 ≤ byte && byte ≤ 0x7A) || isDigit byte ||
    (ascii "!#$&+-.^_" ++ [0x60] ++ ascii "|~").contains byte

def rfc5987Encode (name : Bytes) : Bytes :=
  name.flatMap fun byte ↦
    if isAttrChar byte then [byte]
    else
      [0x25, hexDigits.getD (byte >>> 4).toNat 0, hexDigits.getD (byte &&& 0xF).toNat 0]

def asciiName (name : Bytes) : Bytes :=
  let shown := (name.filter fun byte ↦ 0x20 ≤ byte && byte != 0x7F).map fun byte ↦
    if byte < 0x80 then byte else 0x5F
  if shown.isEmpty then ascii "download" else shown

def disposition (name : Bytes) : Bytes :=
  ascii "attachment; filename=\"" ++ asciiName name ++ ascii "\"; filename*=UTF-8''" ++ rfc5987Encode name

/-- A read that fails, or a client that goes, ends the body early. -/
def handleGetFileDownload (moment : Moment) (explorer : Explorer) (volume path : Option Bytes) : Response :=
  match volume with
  | none => .failed .notFound []
  | some volume =>
    let path := path.getD [slash]
    match moment.refusal with
    | some message => .refused message
    | none =>
      match openRead (moment.fate 0) (explorer.volumes volume) path with
      | .error failure => sendFailure failure
      | .ok content =>
        .file (disposition (basename (shownPath path)))
          (if (moment.fate 1).refused.isSome then content.take (moment.calls.reach 1) else content)

def handlePostFileMkdir (moment : Moment) (explorer : Explorer) (body : Bytes) : Response × Explorer :=
  let volume := jsonGetStr body (ascii "volume")
  match mkdir (moment.fate 0) (explorer.volumes volume) (jsonGetStr body (ascii "path")) with
  | .error failure => (sendFailure failure, explorer)
  | .ok tree => (.ok, explorer.setVolume volume tree)

def handlePostFileRename (moment : Moment) (explorer : Explorer) (body : Bytes) : Response × Explorer :=
  let volume := jsonGetStr body (ascii "volume")
  match rename (moment.fate 0) (explorer.volumes volume) (jsonGetStr body (ascii "path"))
    (jsonGetStr body (ascii "to")) with
  | .error failure => (sendFailure failure, explorer)
  | .ok tree => (.ok, explorer.setVolume volume tree)

def handlePostFileDelete (moment : Moment) (explorer : Explorer) (body : Bytes) : Response × Explorer :=
  let volume := jsonGetStr body (ascii "volume")
  let result := remove (moment.fate 0) (explorer.volumes volume)
    (jsonGetStr body (ascii "path")) (jsonGetBool body (ascii "recursive") false)
  (match result.1 with
    | .error failure => sendFailure failure
    | .ok _ => .ok,
    explorer.setVolume volume result.2)

def partSize (tree : Tree) (file : List Bytes) : Nat := ((tree.read (FileSink.partOf file)).map List.length).getD 0

def FileSink.openAt (tree : Tree) (file : List Bytes) (initialSize : Nat) : Option (FileSink × Tree) :=
  if 0 < initialSize ∧ (tree.read (partOf file)).isSome then some (⟨file, partOf file⟩, tree)
  else create tree file

def openWrite (calls : Calls) (freeBytes : Nat) (tree : Tree) (path : Bytes)
    (offset totalLen chunkLen : Nat) : Except Failure (FileSink × UploadRange × Tree) :=
  within (calls.fate 0) path fun names ↦
    if names = [] then .error ⟨.invalidPath, none⟩
    else if tree.find names = some .dir then .error ⟨.alreadyExists, none⟩
    else
      match UploadRange.check (partSize tree names) offset chunkLen (totalLen ≠ 0) totalLen with
      | .error reason => .error ⟨.conflict, some reason⟩
      | .ok range =>
        if freeBytes < range.neededBytes + TransferEngine.kFreeSpaceReserve then
          .error ⟨.noSpace, some (ascii "volume is full")⟩
        else
          match (calls.fate 1).refused, FileSink.openAt tree names range.offset with
          | none, some opened => .ok (opened.1, range, opened.2)
          | _, _ => .error ⟨.ioError, some (calls.fate 1).text⟩

def saveText (moment : Moment) (explorer : Explorer) (volume path text : Bytes) : Response × Explorer :=
  match openWrite (moment.calls.from 1) (moment.freeBytes volume) (explorer.volumes volume) path
    0 0 text.length with
  | .error failure => (sendFailure failure, explorer)
  | .ok (sink, _, tree) =>
    match if text = [] then some tree else sink.write (moment.fate 3) tree text with
    | none => (.failed .ioError [], explorer.setVolume volume (sink.abort (moment.fate 4) tree))
    | some tree =>
      let result := sink.commit (moment.fate 4) (moment.fate 5) (moment.fate 6) (moment.fate 7) tree
      let explorer := explorer.setVolume volume result.2
      if result.1 then
        let after := stat (moment.fate 8) result.2 path
        (.saved text.length (if after.isOk then moment.mtime volume (shownPath path) else 0), explorer)
      else (.failed .ioError [], explorer)

def handlePostFileText (moment : Moment) (explorer : Explorer) (body : Bytes) : Response × Explorer :=
  match TextSaves.parseSave body with
  | .error .emptyBody => (.emptyBody, explorer)
  | .error (.failed status) => (.failed status [], explorer)
  | .error (.saved size mtime) => (.saved size mtime, explorer)
  | .ok save =>
    let volume := jsonGetStr (TextSaves.envelope body) (ascii "volume")
    let path := jsonGetStr (TextSaves.envelope body) (ascii "path")
    let known := moment.mtime volume (shownPath path)
    match stat (moment.fate 0) (explorer.volumes volume) path with
    | .error _ => saveText moment explorer volume path save.text
    | .ok info =>
      if info.isDir then (.failed .invalidPath [], explorer)
      else if 0 ≤ save.clientMtime ∧ save.clientMtime ≠ known then (.failed .conflict [], explorer)
      else saveText moment explorer volume path save.text

inductive Received
  | complete
  | broken
  | stopped
deriving DecidableEq

/-- The loop of an upload: what it ends with, the bytes written, and the volume. -/
def receive (sink : FileSink) : Nat → List Window → Nat → Tree → Received × Nat × Tree
  | 0, _, written, tree => (.complete, written, tree)
  | _ + 1, [], written, tree => (.broken, written, tree)
  | remaining + 1, window :: windows, written, tree =>
    let data := window.data.take (remaining + 1)
    if data = [] then (.broken, written, tree)
    else
      match sink.write window.fate tree data with
      | none => (.broken, written, (sink.write {} tree (data.take window.reach)).getD tree)
      | some tree =>
        if window.stop then (.stopped, written + data.length, tree)
        else receive sink (remaining + 1 - data.length) windows (written + data.length) tree

def finishUpload (moment : Moment) (path : Bytes) (sink : FileSink) (range : UploadRange)
    (received : Received × Nat × Tree) : Response × Tree :=
  let written := received.2.1
  let tree := received.2.2
  if received.1 = .stopped then (.refused (ascii "upload cancelled"), sink.abort (moment.fate 2) tree)
  else if received.1 = .broken ∨ !range.completes then
    if range.resumable then (.partialUpload written range.total, tree)
    else (.refused (ascii "incomplete or write error"), sink.abort (moment.fate 2) tree)
  else
    let result := sink.commit (moment.fate 2) (moment.fate 3) (moment.fate 4) (moment.fate 5) tree
    if result.1 then (.uploaded written (shownPath path), result.2)
    else (.refused (ascii "cannot publish the file"), result.2)

def uploadTask (moment : Moment) (explorer : Explorer) (volume path : Bytes) (offset total chunk : Nat) :
    Response × Explorer :=
  match openWrite moment.calls (moment.freeBytes volume) (explorer.volumes volume) path offset
    total chunk with
  | .error failure => (sendFailure failure, explorer)
  | .ok (sink, range, tree) =>
    let result := finishUpload moment path sink range
      (receive sink chunk moment.windows range.offset tree)
    (result.1, explorer.setVolume volume result.2)

def handlePostFileUpload (moment : Moment) (explorer : Explorer) (volume path : Option Bytes)
    (offset total : Option Nat) (contentLength : Nat) : Response × Explorer :=
  match volume, path with
  | none, _ => (.failed .notFound [], explorer)
  | some _, none => (.failed .invalidPath [], explorer)
  | some volume, some path =>
    if offset.isSome && total.isNone then (.refused (ascii "offset requires total"), explorer)
    else if contentLength = 0 then (.refused (ascii "Content-Length required"), explorer)
    else
      match moment.refusal with
      | some message => (.refused message, explorer)
      | none => uploadTask moment explorer volume path (offset.getD 0) (total.getD 0) contentLength

def uploadOffset (fate : Fate) (tree : Tree) (path : Bytes) : Except Failure Nat :=
  within fate path fun names ↦ .ok (partSize tree names)

def handleGetFileUploadOffset (moment : Moment) (explorer : Explorer) (volume path : Option Bytes) : Response :=
  match volume, path with
  | none, _ => .failed .notFound []
  | some _, none => .failed .invalidPath []
  | some volume, some path =>
    match uploadOffset (moment.fate 0) (explorer.volumes volume) path with
    | .error failure => sendFailure failure
    | .ok bytes => .offset bytes

def discardUpload (calls : Calls) (tree : Tree) (path : Bytes) : Except Failure Tree :=
  within (calls.fate 0) path fun names ↦
    if tree.find (FileSink.partOf names) = none then .ok tree
    else
      match (calls.fate 1).refused, tree.unlink (FileSink.partOf names) with
      | none, some left => .ok left
      | _, _ => .error ⟨.ioError, some (calls.fate 1).text⟩

def handlePostFileUploadCancel (moment : Moment) (explorer : Explorer) (volume path : Option Bytes) :
    Response × Explorer :=
  match volume, path with
  | none, _ => (.failed .notFound [], explorer)
  | some _, none => (.failed .invalidPath [], explorer)
  | some volume, some path =>
    match discardUpload moment.calls (explorer.volumes volume) path with
    | .error failure => (sendFailure failure, explorer)
    | .ok tree => (.ok, explorer.setVolume volume tree)

namespace TransferEngine

/-- The selected names that the destination holds already. -/
def takenNames (env : Environment) (request : TransferRequest) (dstDir : Bytes) :
    List Bytes → Session → List Bytes
  | [], _ => []
  | raw :: paths, session =>
    match normalize raw with
    | none => takenNames env request dstDir paths session
    | some path =>
      match normalizeChild dstDir (basename path) with
      | none => takenNames env request dstDir paths session
      | some target =>
        let found := stat (session.fate env) (session.destination request) target
        let names := takenNames env request dstDir paths session.tick
        if found.isOk then basename path :: names else names

def conflicts (env : Environment) (request : TransferRequest) (volumes : Bytes → Tree) :
    Except Failure (List Bytes) :=
  let checked := validate env request (start request volumes)
  match checked.1 with
  | some status => .error ⟨status, some checked.2.detail⟩
  | none =>
    .ok (takenNames env request ((normalize request.dstPath).getD [slash]) request.paths checked.2)

end TransferEngine

def transferStart (calls : Calls) (explorer : Explorer)
    (request : TransferEngine.TransferRequest) : Except Failure Unit × Explorer :=
  match (calls.fate 0).refused, (calls.fate 1).refused with
  | some status, _ => (.error ⟨status, some (ascii "the source volume is not available")⟩, explorer)
  | none, some status =>
    (.error ⟨status, some (ascii "the destination volume is not available")⟩, explorer)
  | none, none =>
    if explorer.transferReq.isSome then
      (.error ⟨.busy, some (ascii "another transfer is already running")⟩, explorer)
    else
      let transferState : TransferEngine.TransferReport :=
        { busy := true
          op := request.op
          srcVolume := request.srcVolume
          dstVolume := request.dstVolume
          dstPath := request.dstPath }
      if (calls.fate 2).refused.isSome then
        (.error ⟨.ioError, some (ascii "failed to start the transfer task")⟩, { explorer with
            transferCancel := false
            transferState := { transferState with
              busy := false
              finished := true
              phase := .done
              error := ascii "failed to start the transfer task" } })
      else (.ok (), { explorer with transferState, transferReq := some request, transferCancel := false })

/-- `environment` is that of the checks. -/
def handlePostFileTransfer (moment : Moment) (env : TransferEngine.Environment) (explorer : Explorer)
    (request : TransferEngine.TransferRequest) : Response × Explorer :=
  match TransferEngine.conflicts env request explorer.volumes with
  | .error failure => (sendFailure failure, explorer)
  | .ok names =>
    if names ≠ [] ∧ request.conflict = .ask then (.conflicts names, explorer)
    else
      let result := transferStart moment.calls explorer request
      (match result.1 with
        | .error failure => sendFailure failure
        | .ok _ => .started,
        result.2)

def handleGetFileTransfer (explorer : Explorer) : Response := .transfer explorer.transferState

def handlePostFileTransferCancel (explorer : Explorer) : Response × Explorer :=
  (.ok, if explorer.transferState.busy then { explorer with transferCancel := true } else explorer)

/-- The transfer task does its work. It stops where it has been asked to. -/
def transferTask (env : TransferEngine.Environment) (fuel : Nat) (explorer : Explorer) :
    Option Explorer := do
  let request ← explorer.transferReq
  let stopping : TransferEngine.Environment :=
    { env with stop := fun moment ↦ explorer.transferCancel || env.stop moment }
  let session ← TransferEngine.run stopping request fuel explorer.volumes
  return { explorer with volumes := session.volumes, transferState := session.report, transferReq := none }

end DhcpServer.Files
