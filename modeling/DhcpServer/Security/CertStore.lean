import DhcpServer.Files.FileManager
import DhcpServer.Time.TimeMath

/-!
# The store of the certificate pair

`CertStore`: the pair `server.crt` and `server.key` in the folder `certs` of one of the two volumes. The
store calls the file system itself; a `Calls` says how each of its calls goes. What `mbedTLS` makes of a
certificate and of a pair is a parameter.
-/

/-!
## The rules of a certificate

What `CertificateBuilder.h` says about a certificate before one is built: the name it may carry, the address,
the period and the dates.
-/

namespace DhcpServer.Security

open Library Time.TimeMath

def kDefaultCommonName : Bytes := ascii "dhcpserver.local"
def kValidityYears : Int := 5
def kValidityYearChoices : List Int := [1, 2, 3, 5, 10]
def kDaysWarningWindow : Int := 30
def kMaxHostNameLen : Nat := 253
def kMaxIpv4PartDigits : Nat := 3
def kMaxIpv4Octet : Nat := 255
def kIpv4Bytes : Nat := 4
def kMaxUnixSec : Int := 4294967295
def kClockSetSinceEpoch : Int := 1577836800
def kNotBeforeBackdateSec : Int := kSecondsPerDay
def kExpiryWarnSec : Int := kDaysWarningWindow * kSecondsPerDay

def certValidityYearsAllowed (years : Int) : Bool := kValidityYearChoices.contains years

/-- `1, 2, 3, 5 or 10` -/
def certValidityYearChoicesText : Bytes :=
  let choices := kValidityYearChoices.map fun years ↦ ascii (toString years)
  (List.intersperse (ascii ", ") choices.dropLast).flatten ++ ascii " or " ++ choices.getLastD []

def certNotAfterEpoch (issuedAt years : Int) : Option Int :=
  if issuedAt < 0 || kMaxUnixSec < issuedAt then none
  else
    let issued := fromUnixSec issuedAt.toNat
    let dt := { issued with year := issued.year + years }
    if isValidDate dt.year dt.month dt.day then some (toUnixSec dt)
    else
      let days := daysInMonth dt.year dt.month
      if days ≤ 0 || !isValidDate dt.year dt.month days then none
      else some (toUnixSec { dt with day := days })

def certExpired (notAfter now : Int) : Bool := notAfter ≤ now

def certNotYetValid (notBefore now : Int) : Bool := now < notBefore

def certExpiresSoon (notAfter now : Int) : Bool :=
  !certExpired notAfter now && notAfter - now ≤ kExpiryWarnSec

def certDaysLeft (notAfter now : Int) : Int :=
  if certExpired notAfter now then 0 else (notAfter - now + kSecondsPerDay - 1).tdiv kSecondsPerDay

def dot : UInt8 := 0x2E
def dash : UInt8 := 0x2D

def isHostNameChar (byte : UInt8) : Bool :=
  (0x30 ≤ byte && byte ≤ 0x39) || (0x61 ≤ byte && byte ≤ 0x7A) || (0x41 ≤ byte && byte ≤ 0x5A) ||
    byte = dash || byte = dot

/-- `a..b` -/
def hasEmptyLabel : Bytes → Bool
  | byte :: next :: rest => (byte = dot && next = dot) || hasEmptyLabel (next :: rest)
  | _ => false

def isValidHostName (name : Bytes) : Bool :=
  !name.isEmpty && name.length ≤ kMaxHostNameLen && name.head? ≠ some dot && name.getLast? ≠ some dot &&
    name.head? ≠ some dash && name.getLast? ≠ some dash && !hasEmptyLabel name &&
    name.all isHostNameChar

def parseOctet (part : Bytes) : Option UInt8 :=
  if part.isEmpty || kMaxIpv4PartDigits < part.length then none
  else if 1 < part.length && part.head? = some 0x30 then none
  else if part.all fun byte ↦ 0x30 ≤ byte && byte ≤ 0x39 then
    let value := part.foldl (fun value byte ↦ value * 10 + (byte.toNat - 0x30)) 0
    if kMaxIpv4Octet < value then none else some (UInt8.ofNat value)
  else none

def parseIpv4 (text : Bytes) : Option Bytes :=
  let parts := text.splitOn dot
  if parts.length = kIpv4Bytes then parts.mapM parseOctet else none

structure CertRequest where
  hostName : Bytes
  ip : Bytes
  notBeforeEpoch : Int
  notAfterEpoch : Int

end DhcpServer.Security

namespace DhcpServer.Security

open Library Files

inductive CertStorage
  | internal
  | sdCard
deriving DecidableEq

def certStorageName : CertStorage → Bytes
  | .internal => ascii "internal"
  | .sdCard => ascii "sdcard"

def certStorageFromName (name : Bytes) : Option CertStorage :=
  if name = certStorageName .internal then some .internal
  else if name = certStorageName .sdCard then some .sdCard
  else none

def certMountPoint : CertStorage → Bytes
  | .internal => ascii "/fat"
  | .sdCard => ascii "/sdcard"

def certVolumeId : CertStorage → Bytes
  | .internal => ascii "fat"
  | .sdCard => ascii "sd"

def kCertFolder : List Bytes := [ascii "certs"]
def kCertFile : List Bytes := [ascii "certs", ascii "server.crt"]
def kKeyFile : List Bytes := [ascii "certs", ascii "server.key"]

def certFolderPathIn (storage : CertStorage) : Bytes := certMountPoint storage ++ ascii "/certs"
def certFilePathIn (storage : CertStorage) : Bytes := certMountPoint storage ++ ascii "/certs/server.crt"
def keyFilePathIn (storage : CertStorage) : Bytes := certMountPoint storage ++ ascii "/certs/server.key"

structure CertInfo where
  available : Bool := false
  present : Bool := false
  valid : Bool := false
  expired : Bool := false
  notYetValid : Bool := false
  expiringSoon : Bool := false
  notBeforeEpoch : Int := 0
  notAfterEpoch : Int := 0
  certBytes : Nat := 0
  keyBytes : Nat := 0
  subject : Bytes := []
  sans : Bytes := []
  path : Bytes
  error : Bytes := []
deriving DecidableEq

inductive CertStatus
  | ready
  | noStore
  | storageUnavailable
  | noPair
  | unreadable
  | expired
  | notYetValid
deriving DecidableEq

def certStatus (info : CertInfo) : CertStatus :=
  if !info.available then .storageUnavailable
  else if !info.present then .noPair
  else if !info.valid then .unreadable
  else if info.expired then .expired
  else if info.notYetValid then .notYetValid
  else .ready

def certUsable (status : CertStatus) : Bool := status = .ready

structure Parsed where
  notBeforeEpoch : Int
  notAfterEpoch : Int
  subject : Bytes
  sans : Bytes

structure Crypto where
  /-- the certificate, or why it cannot be read -/
  parse : Bytes → Except Bytes Parsed
  /-- the TLS server starts with this certificate and this key -/
  serves : Bytes → Bytes → Bool

namespace CertStore

def noSuchFile : Bytes := ascii "No such file or directory"

def readFile (calls : Calls) (tree : Tree) (file : List Bytes) (path : Bytes) : Except Bytes Bytes :=
  if (calls.fate 0).refused.isSome then
    .error (ascii "cannot read " ++ path ++ ascii ": " ++ (calls.fate 0).text)
  else
    match tree.read file with
    | none => .error (ascii "cannot read " ++ path ++ ascii ": " ++ noSuchFile)
    | some content =>
      if (calls.fate 1).refused.isSome then .error (ascii "error while reading " ++ path)
      else .ok content

def writeFile (calls : Calls) (tree : Tree) (file : List Bytes) (path text : Bytes) : Option Bytes × Tree :=
  if (calls.fate 0).refused.isSome then
    (some (ascii "cannot write " ++ path ++ ascii ": " ++ (calls.fate 0).text), tree)
  else
    -- a write that fails or cannot be flushed leaves what it got through
    let failed := (calls.fate 1).refused.isSome
    match tree.write file (if failed then text.take (calls.reach 1) else text) with
    | none => (some (ascii "cannot write " ++ path ++ ascii ": " ++ noSuchFile), tree)
    | some written => (if failed then some (ascii "error while writing " ++ path) else none, written)

def removeFile (fate : Fate) (tree : Tree) (file : List Bytes) (path : Bytes) : Option Bytes × Tree :=
  if fate.refused.isSome then (some (ascii "cannot delete " ++ path ++ ascii ": " ++ fate.text), tree)
  else if tree.find file = none then (none, tree)
  else
    match tree.unlink file with
    | none => (some (ascii "cannot delete " ++ path ++ ascii ": " ++ ascii "Is a directory"), tree)
    | some left => (none, left)

/-- The certificate goes first; the last error is the one that is told. -/
def eraseFiles (calls : Calls) (storage : CertStorage) (tree : Tree) : Option Bytes × Tree :=
  let cert := removeFile (calls.fate 0) tree kCertFile (certFilePathIn storage)
  let key := removeFile (calls.fate 1) cert.2 kKeyFile (keyFilePathIn storage)
  (key.1 <|> cert.1, key.2)

def writePairIn (calls : Calls) (storage : CertStorage) (certPem keyPem : Bytes) (tree : Tree) :
    Option Bytes × Tree :=
  let cert := writeFile (calls.from 2) (eraseFiles calls storage tree).2 kCertFile (certFilePathIn storage)
    certPem
  match cert.1 with
  | some why => (some why, (eraseFiles (calls.from 4) storage cert.2).2)
  | none =>
    let key := writeFile (calls.from 4) cert.2 kKeyFile (keyFilePathIn storage) keyPem
    match key.1 with
    | some why => (some why, (eraseFiles (calls.from 6) storage key.2).2)
    | none => (none, key.2)

/-- Whether a volume is mounted: the reason if it is not, which may be empty. -/
abbrev Mounts := CertStorage → Option Bytes

def unavailable (mounts : Mounts) (storage : CertStorage) : Option Bytes :=
  (mounts storage).map fun reason ↦
    if reason = [] then ascii "the volume " ++ certMountPoint storage ++ ascii " is not available" else reason

def ensureFolderIn (fate : Fate) (mounts : Mounts) (storage : CertStorage) (tree : Tree) :
    Option Bytes × Tree :=
  match unavailable mounts storage with
  | some reason => (some reason, tree)
  | none =>
    if tree.find kCertFolder = some .dir then (none, tree)
    else if tree.find kCertFolder ≠ none then
      (some (certFolderPathIn storage ++ ascii " exists and is not a folder"), tree)
    else
      match fate.refused, tree.mkdir kCertFolder with
      | none, some made => (none, made)
      | _, _ => (some (ascii "cannot create " ++ certFolderPathIn storage ++ ascii ": " ++ fate.text), tree)

def pairPresentIn (calls : Calls) (mounts : Mounts) (storage : CertStorage) (tree : Tree) : Bool :=
  (mounts storage).isNone && (calls.fate 0).refused.isNone && tree.find kCertFile ≠ none &&
    (calls.fate 1).refused.isNone && tree.find kKeyFile ≠ none

section Chosen

-- the chosen volume and what is on it
variable (calls : Calls) (mounts : Mounts) (storage : CertStorage) (tree : Tree)

def load : Except Bytes (Bytes × Bytes) :=
  match unavailable mounts storage with
  | some reason => .error reason
  | none => do
    let certPem ← readFile calls tree kCertFile (certFilePathIn storage)
    let keyPem ← readFile (calls.from 2) tree kKeyFile (keyFilePathIn storage)
    return (certPem, keyPem)

def readCertificate : Except Bytes Bytes :=
  match unavailable mounts storage with
  | some reason => .error reason
  | none => readFile calls tree kCertFile (certFilePathIn storage)

def info (crypto : Crypto) (now : Int) : CertInfo :=
  let path := certFilePathIn storage
  match unavailable mounts storage with
  | some reason => { path, error := reason }
  | none =>
    match readFile calls tree kCertFile path with
    | .error reason => { path, available := true, error := reason }
    | .ok certPem =>
      match readFile (calls.from 2) tree kKeyFile (keyFilePathIn storage) with
      | .error reason => { path, available := true, certBytes := certPem.length, error := reason }
      | .ok keyPem =>
        let out : CertInfo :=
          { path
            available := true
            present := true
            certBytes := certPem.length
            keyBytes := keyPem.length }
        match crypto.parse certPem with
        | .error reason => { out with error := reason }
        | .ok crt =>
          { out with
            valid := true
            notBeforeEpoch := crt.notBeforeEpoch
            notAfterEpoch := crt.notAfterEpoch
            expired := certExpired crt.notAfterEpoch now
            notYetValid := certNotYetValid crt.notBeforeEpoch now
            expiringSoon := certExpiresSoon crt.notAfterEpoch now
            subject := crt.subject
            sans := crt.sans }

def erase : Option Bytes × Tree :=
  match unavailable mounts storage with
  | some reason => (some reason, tree)
  | none => eraseFiles calls storage tree

def quoted (text : Bytes) : Bytes := ascii "\"" ++ text ++ ascii "\""

def certRequest (hostName ip : Bytes) (years now : Int) : Except Bytes CertRequest :=
  match unavailable mounts storage with
  | some reason => .error reason
  | none =>
    if !isValidHostName hostName then .error (quoted hostName ++ ascii " is not a usable certificate name")
    else
      match parseIpv4 ip with
      | none => .error (quoted ip ++ ascii " is not an IPv4 address")
      | some address =>
        if !certValidityYearsAllowed years then
          .error (ascii "the validity period must be " ++ certValidityYearChoicesText ++ ascii " years")
        else if now < kClockSetSinceEpoch then
          .error (ascii "the device clock is not set yet: the certificate would be dated 1970")
        else
          match certNotAfterEpoch now years with
          | none => .error (ascii "the device clock is too far ahead for a valid certificate")
          | some notAfter => .ok ⟨hostName, address, now - kNotBeforeBackdateSec, notAfter⟩

/-- `build` is the certificate builder at this moment. -/
def generate (build : CertRequest → Except Bytes (Bytes × Bytes)) (hostName ip : Bytes) (years now : Int) :
    Option Bytes × Tree :=
  match certRequest mounts storage hostName ip years now with
  | .error why => (some why, tree)
  | .ok request =>
    let folder := ensureFolderIn (calls.fate 0) mounts storage tree
    match folder.1 with
    | some why => (some why, folder.2)
    | none =>
      match build request with
      | .error why => (some why, folder.2)
      | .ok pair => writePairIn (calls.from 1) storage pair.1 pair.2 folder.2

end Chosen

def copyTo (calls : Calls) (mounts : Mounts) (volumes : Bytes → Tree) (storage target : CertStorage) :
    Option Bytes × Tree :=
  let tree := volumes (certVolumeId target)
  if target = storage then (none, tree)
  else
    match unavailable mounts storage with
    | some reason => (some reason, tree)
    | none =>
      let folder := ensureFolderIn (calls.fate 0) mounts target tree
      match folder.1 with
      | some why => (some why, folder.2)
      | none =>
        match load (calls.from 1) mounts storage (volumes (certVolumeId storage)) with
        | .error why => (some why, folder.2)
        | .ok pair => writePairIn (calls.from 5) target pair.1 pair.2 folder.2

end CertStore

end DhcpServer.Security
