import DhcpServer.Security.CertStore
import DhcpServer.Web.Json

/-!
# The requests for the certificate pair

The handlers of `RestApi` for certificates, with the tasks they start: the generation of a pair, which may
take longer than its request waits, and the switch of HTTPS after a change. The private key is meant to be in
none of the answers.
-/

namespace DhcpServer.Security

open Library Files Web.Json

structure CertGenJob where
  name : Bytes
  ip : Bytes
  years : Int

/-- The volumes, the settings and the web server as the certificate pages know them. -/
structure Keeper where
  volumes : Bytes → Tree
  storage : CertStorage := .internal
  certName : Bytes := kDefaultCommonName
  serverIp : Bytes := []
  /-- the TLS server is running -/
  httpsEnabled : Bool := false
  certGenJob : Option CertGenJob := none
  /-- the switches of HTTPS that wait for the answer of their request to leave -/
  httpsSwitches : List Bool := []

def Keeper.tree (keeper : Keeper) : Tree := keeper.volumes (certVolumeId keeper.storage)

def Keeper.setTree (keeper : Keeper) (storage : CertStorage) (tree : Tree) : Keeper :=
  { keeper with volumes := Function.update keeper.volumes (certVolumeId storage) tree }

structure CertMoment where
  calls : Calls := {}
  mounts : CertStore.Mounts := fun _ ↦ none
  now : Int := kClockSetSinceEpoch
  build : CertRequest → Except Bytes (Bytes × Bytes) := fun _ ↦ .error []
  /-- there is no memory or no task for the generator -/
  noGenerator : Option Bytes := none
  /-- the generator takes longer than the request waits -/
  late : Bool := false
  /-- there is a task for the switch -/
  switches : Bool := true

structure VolumePayload where
  id : Bytes
  mount : Bytes
  current : Bool
  present : Bool
deriving DecidableEq

structure CertificatesPayload where
  storage : Bytes
  state : CertStatus
  available : Bool
  httpsEnabled : Bool
  httpsAvailable : Bool
  volumes : List VolumePayload
  daysLeft : Int
  cert : CertInfo
  validityYears : Int := kValidityYears
  validityOptions : List Int := kValidityYearChoices
  warningDays : Int := kDaysWarningWindow
  name : Bytes
  defaultName : Bytes := kDefaultCommonName
  ip : Bytes
deriving DecidableEq

inductive CertResponse
  | error (message : Bytes)
  | changed (httpsRestart : Bool)
  | certificates (payload : CertificatesPayload)
  | pem (certPem : Bytes)
deriving DecidableEq

section Requests

variable (crypto : Crypto) (moment : CertMoment) (keeper : Keeper)

/-- The pair on the chosen volume; `first` calls have been made before. -/
def infoAt (first : Nat) : CertInfo :=
  CertStore.info (moment.calls.from first) moment.mounts keeper.storage keeper.tree crypto moment.now

def canServe (first : Nat) : Bool := certUsable (certStatus (infoAt crypto moment keeper first))

def volumePayload (first : Nat) (storage : CertStorage) : VolumePayload where
  id := certStorageName storage
  mount := certMountPoint storage
  current := storage = keeper.storage
  present := CertStore.pairPresentIn (moment.calls.from first) moment.mounts storage
    (keeper.volumes (certVolumeId storage))

def handleGetCertificates : CertResponse :=
  let info := infoAt crypto moment keeper 0
  .certificates
    { storage := certStorageName keeper.storage
      state := certStatus info
      available := info.available
      httpsEnabled := keeper.httpsEnabled
      httpsAvailable := canServe crypto moment keeper 4
      volumes := [volumePayload moment keeper 8 .internal, volumePayload moment keeper 10 .sdCard]
      daysLeft := if info.valid then certDaysLeft info.notAfterEpoch moment.now else 0
      cert := info
      name := keeper.certName
      ip := keeper.serverIp }

def runGenerator (job : CertGenJob) : Option Bytes × Keeper :=
  let result := CertStore.generate moment.calls moment.mounts keeper.storage keeper.tree moment.build job.name
    job.ip job.years moment.now
  (result.1, keeper.setTree keeper.storage result.2)

def runCertificateGeneration (job : CertGenJob) : Option Bytes × Keeper :=
  if keeper.certGenJob.isSome then (some (ascii "a certificate generation is already running"), keeper)
  else
    match moment.noGenerator with
    | some why => (some why, keeper)
    | none =>
      if moment.late then
        (some (ascii "the certificate generation did not finish"), { keeper with certGenJob := some job })
      else runGenerator moment keeper job

def postGenerate (body : Bytes) : Option Bytes × Keeper :=
  let given := jsonGetStr body (ascii "name")
  let name := if given = [] then keeper.certName else given
  let result := runCertificateGeneration moment keeper
    { name, ip := keeper.serverIp, years := jsonGetInt body (ascii "years") kValidityYears }
  match result.1 with
  | some why => (some why, result.2)
  | none => (none, { result.2 with certName := name })

def postDelete : Option Bytes × Keeper :=
  let result := CertStore.erase moment.calls moment.mounts keeper.storage keeper.tree
  (result.1, keeper.setTree keeper.storage result.2)

/-- The pair is copied only on request, and only if there is none at the target. -/
def copiesPair (body : Bytes) (target : CertStorage) : Bool :=
  target ≠ keeper.storage && jsonGetBool body (ascii "copy") false &&
    CertStore.pairPresentIn moment.calls moment.mounts keeper.storage keeper.tree &&
    !CertStore.pairPresentIn (moment.calls.from 2) moment.mounts target
      (keeper.volumes (certVolumeId target))

def postStorage (body : Bytes) : Option Bytes × Keeper :=
  match certStorageFromName (jsonGetStr body (ascii "storage")) with
  | none => (some (ascii "unknown storage volume"), keeper)
  | some target =>
    if target = keeper.storage then (none, keeper)
    else if copiesPair moment keeper body target then
      let result := CertStore.copyTo (moment.calls.from 4) moment.mounts keeper.volumes keeper.storage target
      match result.1 with
      | some why => (some why, keeper.setTree target result.2)
      | none => (none, { keeper.setTree target result.2 with storage := target })
    else (none, { keeper with storage := target })

def certAction (body : Bytes) : Option Bytes × Keeper :=
  let action := jsonGetStr body (ascii "action")
  if action = [] then (some (ascii "no action given"), keeper)
  else if action = ascii "generate" then postGenerate moment keeper body
  else if action = ascii "delete" then postDelete moment keeper
  else if action = ascii "storage" then postStorage moment keeper body
  else (some (ascii "unknown action"), keeper)

def kActionCalls : Nat := 20

def handlePostCertificates (body : Bytes) : CertResponse × Keeper :=
  let result := certAction moment keeper body
  match result.1 with
  | some why => (.error why, result.2)
  | none =>
    if keeper.httpsEnabled then
      let enable := canServe crypto moment result.2 kActionCalls
      (.changed true, if moment.switches then
          { result.2 with httpsSwitches := result.2.httpsSwitches ++ [enable] }
        else result.2)
    else (.changed false, result.2)

def handleGetCertificateDownload : CertResponse :=
  match CertStore.readCertificate moment.calls moment.mounts keeper.storage keeper.tree with
  | .error why => .error why
  | .ok certPem => .pem certPem

/-- The generator ends after its request has been answered. -/
def certificateGenerateTask : Option Keeper :=
  keeper.certGenJob.map fun job ↦ { (runGenerator moment keeper job).2 with certGenJob := none }

def startHttps (first : Nat) : Bool :=
  keeper.httpsEnabled ||
    match CertStore.load (moment.calls.from first) moment.mounts keeper.storage keeper.tree with
    | .error _ => false
    | .ok pair => (moment.calls.fate (first + 4)).refused.isNone && crypto.serves pair.1 pair.2

def setHttpsEnabled (enable : Bool) : Keeper :=
  if enable then
    if canServe crypto moment keeper 0 && startHttps crypto moment keeper 4 then
      { keeper with httpsEnabled := true }
    else keeper
  else { keeper with httpsEnabled := false }

def httpsSwitchTask (index : Nat) : Option Keeper :=
  keeper.httpsSwitches[index]?.map fun enable ↦
    setHttpsEnabled crypto moment { keeper with httpsSwitches := keeper.httpsSwitches.eraseIdx index } enable

end Requests

end DhcpServer.Security
