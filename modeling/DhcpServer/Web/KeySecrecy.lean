import DhcpServer.Files.BlindRequests
import DhcpServer.Security.KeyInRequests

/-!
# The private key and the requests

Two devices that differ only in the bytes of their private keys, on the same requests. Most requests never
look at the bytes of a file, whatever it is called by then; the others are answered the same as long as the
files they show are the same on both devices. A download shows any file, the key as well.
-/

/-!
## The requests that reach the volumes

A device as the file explorer and the certificate pages work on it. An event is a request that is served to
its end, or what a request has started and left behind: the transfer task at its work, a generator that took
longer than its request, a switch of HTTPS.
-/

namespace DhcpServer.Web

open Library Files Security

structure Device extends Keeper where
  transferState : TransferEngine.TransferReport := {}
  transferReq : Option TransferEngine.TransferRequest := none
  transferCancel : Bool := false

namespace Device

def explorer (device : Device) : Explorer where
  volumes := device.volumes
  transferState := device.transferState
  transferReq := device.transferReq
  transferCancel := device.transferCancel

def withExplorer (device : Device) (explorer : Explorer) : Device :=
  { device with
    volumes := explorer.volumes
    transferState := explorer.transferState
    transferReq := explorer.transferReq
    transferCancel := explorer.transferCancel }

def withKeeper (device : Device) (keeper : Keeper) : Device := { device with toKeeper := keeper }

end Device

inductive Request
  | list (volume path : Option Bytes)
  | readText (volume path : Option Bytes)
  | download (volume path : Option Bytes)
  | saveText (body : Bytes)
  | mkdir (body : Bytes)
  | rename (body : Bytes)
  | delete (body : Bytes)
  | upload (volume path : Option Bytes) (offset total : Option Nat) (contentLength : Nat)
  | uploadOffset (volume path : Option Bytes)
  | uploadCancel (volume path : Option Bytes)
  | transfer (request : TransferEngine.TransferRequest)
  | transferReport
  | transferCancel
  | certificates
  | changeCertificates (body : Bytes)
  | certificate

inductive Answer
  | files (response : Files.Response)
  | certificates (response : CertResponse)
deriving DecidableEq

structure Circumstances where
  files : Files.Moment := {}
  certs : CertMoment := {}
  transfer : TransferEngine.Environment := { free := fun _ ↦ 0 }

inductive Event
  | request (request : Request) (circumstances : Circumstances)
  | transferTask (env : TransferEngine.Environment) (fuel : Nat)
  | generator (moment : CertMoment)
  | httpsSwitch (index : Nat) (moment : CertMoment)

section System

variable (crypto : Crypto) (device : Device)

def answerFiles (result : Files.Response × Explorer) : Answer × Device :=
  (.files result.1, device.withExplorer result.2)

def answerCerts (result : CertResponse × Keeper) : Answer × Device :=
  (.certificates result.1, device.withKeeper result.2)

def serve (circumstances : Circumstances) (request : Request) : Answer × Device :=
  let moment := circumstances.files
  let explorer := device.explorer
  match request with
  | .list volume path => (.files (handleGetFileList moment explorer volume path), device)
  | .readText volume path => (.files (handleGetFileText moment explorer volume path), device)
  | .download volume path => (.files (handleGetFileDownload moment explorer volume path), device)
  | .saveText body => answerFiles device (handlePostFileText moment explorer body)
  | .mkdir body => answerFiles device (handlePostFileMkdir moment explorer body)
  | .rename body => answerFiles device (handlePostFileRename moment explorer body)
  | .delete body => answerFiles device (handlePostFileDelete moment explorer body)
  | .upload volume path offset total contentLength =>
    answerFiles device (handlePostFileUpload moment explorer volume path offset total contentLength)
  | .uploadOffset volume path => (.files (handleGetFileUploadOffset moment explorer volume path), device)
  | .uploadCancel volume path => answerFiles device (handlePostFileUploadCancel moment explorer volume path)
  | .transfer transfer =>
    answerFiles device (handlePostFileTransfer moment circumstances.transfer explorer transfer)
  | .transferReport => (.files (handleGetFileTransfer explorer), device)
  | .transferCancel => answerFiles device (handlePostFileTransferCancel explorer)
  | .certificates =>
    (.certificates (handleGetCertificates crypto circumstances.certs device.toKeeper), device)
  | .changeCertificates body =>
    answerCerts device (handlePostCertificates crypto circumstances.certs device.toKeeper body)
  | .certificate => (.certificates (handleGetCertificateDownload circumstances.certs device.toKeeper), device)

/-- A step, where it is possible, and the answer to a request. -/
def step : Event → Option (Option Answer × Device)
  | .request request circumstances =>
    let result := serve crypto device circumstances request
    some (some result.1, result.2)
  | .transferTask env fuel =>
    (Files.transferTask env fuel device.explorer).map fun explorer ↦ (none, device.withExplorer explorer)
  | .generator moment =>
    (certificateGenerateTask moment device.toKeeper).map fun keeper ↦ (none, device.withKeeper keeper)
  | .httpsSwitch index moment =>
    (httpsSwitchTask crypto moment device.toKeeper index).map fun keeper ↦ (none, device.withKeeper keeper)

end System

/-- The answers that some events bring, and the device they leave. -/
def run (crypto : Crypto) (device : Device) : List Event → Option (List Answer × Device)
  | [] => some ([], device)
  | event :: events => do
    let stepped ← step crypto device event
    let rest ← run crypto stepped.2 events
    return (stepped.1.toList ++ rest.1, rest.2)

end DhcpServer.Web

namespace DhcpServer.Web

open Library Files Security Storage.PathUtil

/-- Two devices that differ in nothing but the bytes of files. -/
structure Device.Alike (left right : Device) : Prop where
  keeper : left.toKeeper.Alike right.toKeeper
  transferState : left.transferState = right.transferState
  transferReq : left.transferReq = right.transferReq
  transferCancel : left.transferCancel = right.transferCancel

def BothStepped {Answer : Type} (result result' : Answer × Device) : Prop :=
  result.1 = result'.1 ∧ result.2.Alike result'.2

variable {crypto : Crypto} {left right : Device}

namespace Device.Alike

section

variable (halike : left.Alike right)
include halike

theorem explorer : left.explorer.Alike right.explorer :=
  ⟨halike.keeper.volumes, halike.transferState, halike.transferReq, halike.transferCancel⟩

theorem withExplorer {explorer explorer' : Explorer}
    (hexplorer : explorer.Alike explorer') : (left.withExplorer explorer).Alike (right.withExplorer explorer') :=
  ⟨⟨hexplorer.volumes, halike.keeper.storage, halike.keeper.certName, halike.keeper.serverIp,
      halike.keeper.httpsEnabled, halike.keeper.certGenJob, halike.keeper.httpsSwitches⟩,
    hexplorer.transferState, hexplorer.transferReq, hexplorer.transferCancel⟩

theorem withKeeper {keeper keeper' : Keeper} (hkeeper : keeper.Alike keeper') :
    (left.withKeeper keeper).Alike (right.withKeeper keeper') :=
  ⟨hkeeper, halike.transferState, halike.transferReq, halike.transferCancel⟩

theorem answerFiles {result result' : Files.Response × Explorer}
    (hserved : BothServed result result') :
    BothStepped (Web.answerFiles left result) (Web.answerFiles right result') :=
  ⟨congrArg Answer.files hserved.1, halike.withExplorer hserved.2⟩

theorem answerCerts {result result' : CertResponse × Keeper}
    (hkept : BothKept result result') :
    BothStepped (Web.answerCerts left result) (Web.answerCerts right result') :=
  ⟨congrArg Answer.certificates hkept.1, halike.withKeeper hkept.2⟩

end

end Device.Alike

/-- The files whose bytes an event works with, each by its volume and its names. -/
def shownFiles (crypto : Crypto) (device : Device) : Event → List (Bytes × List Bytes)
  | .request (.download (some volume) path) _ => [(volume, namesOf (path.getD [slash]))]
  | .request (.readText (some volume) (some path)) _ =>
    if ((device.volumes volume).read (namesOf path)).all fun content ↦
        content.length ≤ TextSaves.kMaxTextBytes then
      [(volume, namesOf path)]
    else []
  | .request .certificates _ | .request .certificate _ => [(certVolumeId device.storage, kCertFile)]
  | .request (.changeCertificates body) circumstances =>
    if device.httpsEnabled then
      (keptCert circumstances.certs device.toKeeper body).toList.map fun storage ↦
        (certVolumeId storage, kCertFile)
    else []
  | .httpsSwitch index moment =>
    -- a TLS server that starts is given the pair
    if device.httpsSwitches[index]? = some true ∧ device.httpsEnabled = false then
      (certVolumeId device.storage, kCertFile) ::
        if canServe crypto moment device.toKeeper 0 then [(certVolumeId device.storage, kKeyFile)] else []
    else []
  | _ => []

/-- The files that an event shows are the same on both devices. -/
def SameShown (crypto : Crypto) (left right : Device) (event : Event) : Prop :=
  ∀ file ∈ shownFiles crypto left event,
    (left.volumes file.1).read file.2 = (right.volumes file.1).read file.2

theorem serve_same (halike : left.Alike right) (circumstances : Circumstances) (request : Request)
    (hshown : SameShown crypto left right (.request request circumstances)) :
    BothStepped (serve crypto left circumstances request) (serve crypto right circumstances request) := by
  have hexplorer := halike.explorer
  cases request with
  | list volume path => exact ⟨congrArg Answer.files (handleGetFileList_alike hexplorer), halike⟩
  | readText volume path =>
    refine ⟨congrArg Answer.files (handleGetFileText_same hexplorer ?_), halike⟩
    rintro volume path rfl rfl hsmall
    refine hshown (volume, namesOf path) ?_
    have hall : (((left.volumes volume).read (namesOf path)).all fun content ↦
        content.length ≤ TextSaves.kMaxTextBytes) = true := by
      rw [Option.all_eq_true]
      exact fun content hcontent ↦ decide_eq_true (hsmall content hcontent)
    rw [shownFiles, if_pos hall]
    exact List.mem_singleton_self _
  | download volume path =>
    refine ⟨congrArg Answer.files (handleGetFileDownload_same hexplorer ?_), halike⟩
    rintro volume rfl
    exact hshown (volume, namesOf (path.getD [slash])) (List.mem_singleton_self _)
  | saveText body => exact halike.answerFiles (handlePostFileText_alike hexplorer body)
  | mkdir body => exact halike.answerFiles (handlePostFileMkdir_alike hexplorer body)
  | rename body => exact halike.answerFiles (handlePostFileRename_alike hexplorer body)
  | delete body => exact halike.answerFiles (handlePostFileDelete_alike hexplorer body)
  | upload volume path offset total contentLength =>
    exact halike.answerFiles (handlePostFileUpload_alike hexplorer offset total contentLength)
  | uploadOffset volume path => exact ⟨congrArg Answer.files (handleGetFileUploadOffset_alike hexplorer), halike⟩
  | uploadCancel volume path => exact halike.answerFiles (handlePostFileUploadCancel_alike hexplorer)
  | transfer request => exact halike.answerFiles (handlePostFileTransfer_alike hexplorer _ request)
  | transferReport => exact ⟨congrArg (Answer.files ∘ Files.Response.transfer) halike.transferState, halike⟩
  | transferCancel => exact halike.answerFiles (handlePostFileTransferCancel_alike hexplorer)
  | certificates =>
    exact ⟨congrArg Answer.certificates
      (handleGetCertificates_same halike.keeper (hshown _ (List.mem_singleton_self _))), halike⟩
  | changeCertificates body =>
    refine halike.answerCerts (handlePostCertificates_same halike.keeper fun hon storage hkept ↦ ?_)
    refine hshown (certVolumeId storage, kCertFile) ?_
    rw [shownFiles, if_pos hon, hkept]
    exact List.mem_singleton_self _
  | certificate =>
    exact ⟨congrArg Answer.certificates
      (handleGetCertificateDownload_same halike.keeper (hshown _ (List.mem_singleton_self _))), halike⟩

theorem step_same (halike : left.Alike right) (event : Event) (hshown : SameShown crypto left right event) :
    Option.Rel BothStepped (step crypto left event) (step crypto right event) := by
  cases event with
  | request request circumstances =>
    obtain ⟨hanswer, hleft⟩ := serve_same halike circumstances request hshown
    exact .some ⟨congrArg some hanswer, hleft⟩
  | transferTask env fuel =>
    exact Worklist.map_coupled (transferTask_alike halike.explorer env fuel)
      fun _ _ hexplorer ↦ ⟨rfl, halike.withExplorer hexplorer⟩
  | generator moment =>
    exact Worklist.map_coupled (certificateGenerateTask_alike halike.keeper)
      fun _ _ hkeeper ↦ ⟨rfl, halike.withKeeper hkeeper⟩
  | httpsSwitch index moment =>
    refine Worklist.map_coupled (httpsSwitchTask_same halike.keeper index fun hswitch hoff ↦ ?_)
      fun _ _ hkeeper ↦ ⟨rfl, halike.withKeeper hkeeper⟩
    unfold SameShown at hshown
    rw [shownFiles, if_pos ⟨hswitch, hoff⟩] at hshown
    refine ⟨hshown _ List.mem_cons_self, fun hserve ↦ ?_⟩
    rw [if_pos hserve] at hshown
    have hkey := hshown _ (List.mem_cons_of_mem _ (List.mem_singleton_self _))
    unfold Keeper.key Keeper.tree
    rw [← halike.keeper.storage]
    exact hkey

/-- No event shows a file that is not the same on both devices by then. -/
def Undisclosed (crypto : Crypto) : Device → Device → List Event → Prop
  | _, _, [] => True
  | left, right, event :: events =>
    SameShown crypto left right event ∧
      ∀ stepped stepped', step crypto left event = some stepped → step crypto right event = some stepped' →
        Undisclosed crypto stepped.2 stepped'.2 events

theorem run_same (halike : left.Alike right) {events : List Event}
    (hundisclosed : Undisclosed crypto left right events) :
    Option.Rel BothStepped (run crypto left events) (run crypto right events) := by
  induction events generalizing left right with
  | nil => exact .some ⟨rfl, halike⟩
  | cons event events ih =>
    obtain ⟨hshown, hrest⟩ := hundisclosed
    have hstep := step_same halike event hshown
    rw [run, run]
    generalize step crypto left event = stepped, step crypto right event = stepped' at hstep hrest ⊢
    cases hstep with
    | none => exact .none
    | @some stepped stepped' hstepped =>
      obtain ⟨hanswer, halike⟩ := hstepped
      rw [Option.bind_eq_bind, Option.bind_some, Option.bind_eq_bind, Option.bind_some]
      refine Worklist.bind_coupled (ih halike (hrest stepped stepped' rfl rfl)) fun rest rest' hboth ↦ ?_
      refine .some ⟨?_, hboth.2⟩
      rw [hanswer, hboth.1]

/-- The second device is the first one with other bytes in the key of a volume, or of several. -/
structure KeyTwins (left right : Device) : Prop where
  same : right = { left with volumes := right.volumes }
  volumes : ∀ volume, right.volumes volume = left.volumes volume ∨
    ∃ key key', (left.volumes volume).read kKeyFile = some key ∧ key.length = key'.length ∧
      (left.volumes volume).write kKeyFile key' = some (right.volumes volume)

theorem KeyTwins.alike (htwins : KeyTwins left right) : left.Alike right := by
  have hvolumes (volume : Bytes) : Files.Alike (left.volumes volume) (right.volumes volume) := by
    rcases htwins.volumes volume with hsame | ⟨key, key', hread, hlength, hwrite⟩
    · rw [hsame]
      exact .refl _
    · exact FileTree.Alike.of_write hlength hread hwrite
  have hsame := htwins.same
  generalize right.volumes = volumes at hvolumes hsame
  subst hsame
  exact ⟨⟨hvolumes, rfl, rfl, rfl, rfl, rfl, rfl⟩, rfl, rfl, rfl⟩

/-- Where no event shows a file that the keys make different, no answer tells the keys apart. -/
theorem answers_hide_key (crypto : Crypto) {left right : Device} (htwins : KeyTwins left right)
    {events : List Event} (hundisclosed : Undisclosed crypto left right events) :
    (run crypto left events).map Prod.fst = (run crypto right events).map Prod.fst := by
  have hrun := run_same htwins.alike hundisclosed
  generalize run crypto left events = result, run crypto right events = result' at hrun ⊢
  cases hrun with
  | none => rfl
  | some hboth => exact congrArg some hboth.1

def volumeWithKey (key : Bytes) : Volume :=
  Volume.ofEntries [(kCertFolder, .dir), (kCertFile, .file (ascii "certificate")), (kKeyFile, .file key)]
    (show [kCertFolder, kCertFile, kKeyFile].Nodup by decide)
    (by simp [kCertFolder, kCertFile, kKeyFile])
    (by simp [kCertFolder, kCertFile, kKeyFile])
    (by
      have hnames : ∀ path ∈ [kCertFolder, kCertFile, kKeyFile], ∀ name ∈ path, EntryName name := by decide
      simpa using hnames)

def deviceWithKey (key : Bytes) : Device where
  volumes volume := if volume = certVolumeId .internal then (volumeWithKey key).toFileTree else FileTree.empty

theorem deviceWithKey_twins {key key' : Bytes} (hlength : key.length = key'.length) :
    KeyTwins (deviceWithKey key) (deviceWithKey key') := by
  refine ⟨rfl, fun volume ↦ ?_⟩
  dsimp only [deviceWithKey]
  split_ifs
  · exact .inr ⟨key, key', rfl, hlength, rfl⟩
  · exact .inl rfl

def refusing : Crypto where
  parse _ := .error []
  serves _ _ := false

/-- `GET /api/files/download?volume=fat&path=/certs/server.key` -/
def downloadKey : Event := .request (.download (some (ascii "fat")) (some (ascii "/certs/server.key"))) {}

theorem download_hands_out_key : ∃ left right : Device, KeyTwins left right ∧
      (run refusing left [downloadKey]).map Prod.fst ≠ (run refusing right [downloadKey]).map Prod.fst := by
  refine ⟨deviceWithKey (ascii "key A"), deviceWithKey (ascii "key B"), deviceWithKey_twins (by decide), ?_⟩
  decide

/-- A look at the folder, at the certificate and at a file that does not hold the key. -/
def lookAround : List Event :=
  [.request (.list (some (ascii "fat")) (some (ascii "/certs"))) {}, .request .certificate {},
    .request (.download (some (ascii "fat")) (some (ascii "/certs/server.crt"))) {}]

theorem Undisclosed.cons {stepped stepped' : Option Answer × Device} {event : Event} {events : List Event}
    (hshown : SameShown crypto left right event) (hstep : step crypto left event = some stepped)
    (hstep' : step crypto right event = some stepped')
    (hrest : Undisclosed crypto stepped.2 stepped'.2 events) :
    Undisclosed crypto left right (event :: events) := by
  refine ⟨hshown, fun result result' hresult hresult' ↦ ?_⟩
  cases hstep.symm.trans hresult
  cases hstep'.symm.trans hresult'
  exact hrest

theorem answers_hide_key_lookAround :
    (run refusing (deviceWithKey (ascii "key A")) lookAround).map Prod.fst =
      (run refusing (deviceWithKey (ascii "key B")) lookAround).map Prod.fst := by
  refine answers_hide_key refusing (deviceWithKey_twins (by decide)) ?_
  refine Undisclosed.cons (fun _ hfile ↦ absurd hfile List.not_mem_nil) rfl rfl ?_
  refine Undisclosed.cons (fun file hfile ↦ ?_) rfl rfl ?_
  · rw [List.mem_singleton.mp hfile]
    rfl
  · refine Undisclosed.cons (fun file hfile ↦ ?_) rfl rfl trivial
    rw [List.mem_singleton.mp hfile]
    decide

end DhcpServer.Web
