import DhcpServer.Core.DnsConfig
import DhcpServer.Web.Json

/-!
# `POST /api/settings/import`: the sections with fields

`handlePostSettingsImport` looks for the quoted name of a section and for the next opening brace, and
reads the fields of the section in the text from that brace to the end of the document. A section is
a list of fields here, each with the key it is read under and the rule by which the handler makes a
value of what it reads. A configuration is the values of its fields, by their keys.

The lists (`static_bindings`, `allowed_computers`, `local_hosts`) are read by scans of their own.
-/

namespace DhcpServer.Web.SettingsImport

open Library DhcpServer.Core Json

inductive Kind
  | flag | number | text
deriving DecidableEq

inductive Setting
  | flag (on : Bool)
  | number (value : Int)
  | text (value : Bytes)
deriving DecidableEq

namespace Setting

def kind : Setting → Kind
  | flag _ => .flag
  | number _ => .number
  | text _ => .text

def isOn : Setting → Bool
  | flag on => on
  | _ => false

def toInt : Setting → Int
  | number value => value
  | _ => 0

def toText : Setting → Bytes
  | text value => value
  | _ => []

variable {setting : Setting}

theorem eq_flag (hkind : setting.kind = .flag) : setting = flag setting.isOn := by
  cases setting with
  | flag on => rfl
  | number value | text value => cases hkind

theorem eq_number (hkind : setting.kind = .number) : setting = number setting.toInt := by
  cases setting with
  | number value => rfl
  | flag value | text value => cases hkind

theorem eq_text (hkind : setting.kind = .text) : setting = text setting.toText := by
  cases setting with
  | text value => rfl
  | flag value | number value => cases hkind

end Setting

/-- A section of the configuration: the value of each field under its key. -/
abbrev Settings := Bytes → Setting

/-- What of the device decides about a value that was read. -/
structure Environment where
  /-- `s_web` serves it already, or `setHttpsEnabled` succeeds -/
  httpsAccepted : Bool → Bool
  /-- `s_certs->pairPresentIn` -/
  pairPresentIn : Bytes → Bool
  /-- `s_wifi->setHostName` -/
  hostNameAccepted : Bytes → Bool

def kMinLeaseEntries : Int := 8
def kMaxLeaseEntries : Int := 512
def kMinUtcOffsetHours : Int := -12
def kMaxUtcOffsetHours : Int := 14
def kMinSyncIntervalSec : Int := 15
def kMaxSyncIntervalSec : Int := 7 * 86400
def kMaxTimezoneBytes : Nat := 40
def kNtpMaxServers : Nat := 3
def kNtpServersTextMax : Nat := 120
def kMaxHostNameLen : Nat := 253
def kDeviceHostNameMaxLen : Nat := 63

/-- A `uint32_t` as an `int`. -/
def toInt32 (value : Int) : Int := (value + 0x80000000) % 0x100000000 - 0x80000000

def toUnsigned (value : Int) : Int := value % 0x100000000

def logFileSizeValid (size : Int) : Bool := size = 65536 || size = 131072 || size = 262144

def isTrimmed (byte : UInt8) : Bool := byte = 0x20 || byte = 0x09 || byte = 0x0D || byte = 0x0A

/-- `ntpServerTrim` and `trimmedDeviceHostName`. -/
def trim (text : Bytes) : Bytes := ((text.dropWhile isTrimmed).reverse.dropWhile isTrimmed).reverse

/-- The names between commas and semicolons; there is one more than there are separators. -/
def ntpPieces : Bytes → List Bytes
  | [] => [[]]
  | byte :: rest =>
    if byte = 0x2C ∨ byte = 0x3B then [] :: ntpPieces rest
    else
      match ntpPieces rest with
      | piece :: pieces => (byte :: piece) :: pieces
      | [] => [[byte]]

def ntpServersSplit (text : Bytes) : List Bytes :=
  (((ntpPieces text).map trim).filter fun name ↦ !name.isEmpty).take kNtpMaxServers

/-- The loop of `ntpServersText`. -/
def joinServers (out : Bytes) (kept : Nat) : List Bytes → Bytes
  | [] => out
  | raw :: servers =>
    let name := trim raw
    if name.isEmpty then joinServers out kept servers
    else if kNtpMaxServers ≤ kept then out
    else if out.isEmpty then joinServers (name.take kNtpServersTextMax) (kept + 1) servers
    else if kNtpServersTextMax < out.length + (2 + name.length) then out
    else joinServers (out ++ [0x2C, 0x20] ++ name) (kept + 1) servers

def ntpServersText (servers : List Bytes) : Bytes := joinServers [] 0 servers

def isLetterOrDigit (byte : UInt8) : Bool :=
  (0x41 ≤ byte && byte ≤ 0x5A) || (0x61 ≤ byte && byte ≤ 0x7A) || (0x30 ≤ byte && byte ≤ 0x39)

def bordersWith (name : Bytes) (byte : UInt8) : Bool := name.head? = some byte || name.getLast? = some byte

def isValidHostName (name : Bytes) : Bool :=
  !name.isEmpty && name.length ≤ kMaxHostNameLen && !bordersWith name 0x2E &&
    !bordersWith name 0x2D && (find [0x2E, 0x2E] name).isNone &&
    name.all fun byte ↦ byte = 0x2E || isLetterOrDigit byte || byte = 0x2D

def isValidDeviceHostName (name : Bytes) : Bool :=
  !name.isEmpty && name.length ≤ kDeviceHostNameMaxLen && !bordersWith name 0x2D &&
    name.all fun byte ↦ isLetterOrDigit byte || byte = 0x2D

def sshPortValid (port : Int) : Bool := 1 ≤ port && port ≤ 65535

def certStorageNames : List Bytes := [ascii "internal", ascii "sdcard"]

structure Reading where
  str : Bytes
  bool : Bool → Bool
  int : Int → Int

def reading (json key : Bytes) : Reading := ⟨jsonGetStr json key, jsonGetBool json key, jsonGetInt json key⟩

inductive Rule
  | flag
  /-- A text; an empty one changes nothing. -/
  | textKept
  /-- A text, assigned as it is read. -/
  | textSet
  | oneOf (texts : List Bytes)
  | logFileSize
  | unsigned
  | leaseEntries
  | clamped (low high : Int)
  | period
  /-- An interval, with the key of its unit. -/
  | autosaveInterval (unit : Bytes)
  | autoUpdateInterval (unit : Bytes)
  | ntpServers
  | timezone
  | certName
  | https
  | certStorage
  | hostName
  | port
deriving DecidableEq

namespace Rule

def kind : Rule → Kind
  | flag | https => .flag
  | logFileSize | unsigned | leaseEntries | clamped _ _ | period | autosaveInterval _
  | autoUpdateInterval _ | port => .number
  | textKept | textSet | oneOf _ | ntpServers | timezone | certName | certStorage | hostName => .text

def unit? : Rule → Option Bytes
  | autosaveInterval unit | autoUpdateInterval unit => some unit
  | _ => none

def admits (rule : Rule) (setting : Setting) : Bool :=
  setting.kind = rule.kind &&
    (rule ≠ unsigned || (0 ≤ setting.toInt && setting.toInt < 0x100000000))

end Rule

def readPeriod (read : Reading) (current : Setting) : AutosavePeriod :=
  .fromIndex (read.int current.toInt % 256).toNat

/-- The value the handler gives a field. `read` has what the getters return, for the field's key and
for the key of its unit. -/
def Rule.apply (env : Environment) (read : Bytes → Reading) (current : Settings) (name : Bytes) :
    Rule → Setting
  | flag => .flag ((read name).bool (current name).isOn)
  | textKept => if (read name).str.isEmpty then current name else .text (read name).str
  | textSet => .text (read name).str
  | oneOf texts =>
    if texts.contains (read name).str then .text (read name).str else current name
  | logFileSize =>
    let size := (read name).int 0
    if 0 < size ∧ logFileSizeValid size = true then .number size else current name
  | unsigned => .number (toUnsigned ((read name).int (toInt32 (current name).toInt)))
  | leaseEntries =>
    let maxEntries := (read name).int (toInt32 (current name).toInt)
    .number (if maxEntries = 0 then 0 else clamp kMinLeaseEntries kMaxLeaseEntries maxEntries)
  | clamped low high => .number (clamp low high ((read name).int (toInt32 (current name).toInt)))
  | period => .number (readPeriod (read name) (current name)).index
  | autosaveInterval unit =>
    .number (autosaveClampInterval (readPeriod (read unit) (current unit))
      ((read name).int (current name).toInt % 65536))
  | autoUpdateInterval unit =>
    .number (autoUpdateClampInterval (readPeriod (read unit) (current unit))
      ((read name).int (current name).toInt % 65536))
  | ntpServers =>
    let servers := ntpServersText (ntpServersSplit (read name).str)
    if servers.isEmpty then current name else .text servers
  | timezone => .text ((read name).str.take kMaxTimezoneBytes)
  | certName =>
    if isValidHostName (read name).str then .text (read name).str else current name
  | https =>
    let wanted := (read name).bool (current name).isOn
    if env.httpsAccepted wanted then .flag wanted else current name
  | certStorage =>
    let target := (read name).str
    if certStorageNames.contains target &&
        (target = (current name).toText || env.pairPresentIn target) then
      .text target
    else current name
  | hostName =>
    let wanted := trim (read name).str
    if isValidDeviceHostName wanted && env.hostNameAccepted wanted then .text wanted
    else current name
  | port =>
    let port := (read name).int (current name).toInt
    if sshPortValid port then .number port else current name

structure Field where
  name : Bytes
  rule : Rule
deriving DecidableEq

inductive Section
  | dhcp | dns | time | security | files | device | deviceLog | ssh

namespace Section

def name : Section → Bytes
  | dhcp => ascii "dhcp"
  | dns => ascii "dns"
  | time => ascii "time"
  | security => ascii "security"
  | files => ascii "files"
  | device => ascii "device"
  | deviceLog => ascii "device_log"
  | ssh => ascii "ssh"

def dhcpFields : List Field :=
  [⟨ascii "enabled", .flag⟩, ⟨ascii "server_ip", .textKept⟩, ⟨ascii "start_ip", .textKept⟩,
    ⟨ascii "end_ip", .textKept⟩, ⟨ascii "subnet", .textKept⟩, ⟨ascii "gateway", .textKept⟩,
    ⟨ascii "log_url", .textSet⟩, ⟨ascii "log_auth_user", .textSet⟩,
    ⟨ascii "dns_address", .textSet⟩, ⟨ascii "dns_mode", .oneOf [ascii "manual", ascii "auto"]⟩,
    ⟨ascii "allow_only", .flag⟩, ⟨ascii "log_terminal", .flag⟩, ⟨ascii "log_file", .flag⟩,
    ⟨ascii "log_file_size", .logFileSize⟩, ⟨ascii "log_rest", .flag⟩, ⟨ascii "log_auth", .flag⟩,
    ⟨ascii "lease_time", .unsigned⟩, ⟨ascii "max_lease_entries", .leaseEntries⟩]

def dnsFields : List Field :=
  [⟨ascii "enabled", .flag⟩, ⟨ascii "external_dns", .textKept⟩, ⟨ascii "log_url", .textSet⟩,
    ⟨ascii "log_auth_user", .textSet⟩, ⟨ascii "cache_url", .textSet⟩,
    ⟨ascii "cache_auth_user", .textSet⟩, ⟨ascii "log_terminal", .flag⟩,
    ⟨ascii "log_forwarded", .flag⟩, ⟨ascii "log_local", .flag⟩, ⟨ascii "log_cache", .flag⟩,
    ⟨ascii "log_rest_sent", .flag⟩, ⟨ascii "log_rest", .flag⟩, ⟨ascii "log_auth", .flag⟩,
    ⟨ascii "log_file", .flag⟩, ⟨ascii "log_file_forwarded", .flag⟩,
    ⟨ascii "log_file_size", .logFileSize⟩, ⟨ascii "cache_rest", .flag⟩,
    ⟨ascii "cache_rest_read", .flag⟩, ⟨ascii "cache_rest_write", .flag⟩,
    ⟨ascii "cache_auth", .flag⟩, ⟨ascii "cache_internal", .flag⟩,
    ⟨ascii "cache_internal_size_mb", .clamped 1 20⟩, ⟨ascii "cache_internal_ignore_ttl", .flag⟩,
    ⟨ascii "cache_internal_save_stats", .flag⟩, ⟨ascii "cache_internal_save_cache", .flag⟩,
    ⟨ascii "cache_internal_autosave", .flag⟩, ⟨ascii "cache_internal_autosave_period", .period⟩,
    ⟨ascii "cache_internal_autosave_interval", .autosaveInterval (ascii "cache_internal_autosave_period")⟩,
    ⟨ascii "stats_autosave", .flag⟩, ⟨ascii "stats_autosave_period", .period⟩,
    ⟨ascii "stats_autosave_interval", .autosaveInterval (ascii "stats_autosave_period")⟩,
    ⟨ascii "cache_internal_autoupdate", .flag⟩,
    ⟨ascii "cache_internal_autoupdate_period", .period⟩,
    ⟨ascii "cache_internal_autoupdate_interval",
      .autoUpdateInterval (ascii "cache_internal_autoupdate_period")⟩,
    ⟨ascii "cache_internal_autoupdate_batch", .clamped 1 1000⟩,
    ⟨ascii "cache_internal_autoupdate_pause", .clamped 1 3600⟩,
    ⟨ascii "block_forward_non_aa", .flag⟩, ⟨ascii "allow_own_subnet", .flag⟩]

def timeFields : List Field :=
  [⟨ascii "enabled", .flag⟩, ⟨ascii "sync_enabled", .flag⟩, ⟨ascii "external_ntp", .ntpServers⟩,
    ⟨ascii "timezone", .timezone⟩,
    ⟨ascii "utc_offset_hours", .clamped kMinUtcOffsetHours kMaxUtcOffsetHours⟩,
    ⟨ascii "sync_interval_sec", .clamped kMinSyncIntervalSec kMaxSyncIntervalSec⟩,
    ⟨ascii "allow_own_subnet", .flag⟩, ⟨ascii "only_allowed_computers", .flag⟩,
    ⟨ascii "rate_limit_per_sec", .clamped 1 100⟩, ⟨ascii "log_terminal", .flag⟩,
    ⟨ascii "log_rest", .flag⟩, ⟨ascii "log_file", .flag⟩, ⟨ascii "log_file_size", .logFileSize⟩,
    ⟨ascii "log_url", .textSet⟩, ⟨ascii "log_auth_user", .textSet⟩, ⟨ascii "log_auth", .flag⟩]

/-- `log_file` is `logAuth`, the log of refused logins. -/
def securityFields : List Field :=
  [⟨ascii "username", .textKept⟩, ⟨ascii "max_attempts", .unsigned⟩,
    ⟨ascii "lockout_period", .unsigned⟩, ⟨ascii "log_file", .flag⟩,
    ⟨ascii "log_file_size", .logFileSize⟩, ⟨ascii "cert_name", .certName⟩,
    ⟨ascii "https_enabled", .https⟩, ⟨ascii "cert_storage", .certStorage⟩]

/-- `local_name` is read only where its quoted key is found, which is when it is not the default. -/
def deviceFields : List Field := [⟨ascii "hostname", .hostName⟩, ⟨ascii "local_name", .flag⟩]

def sshFields : List Field :=
  [⟨ascii "enabled", .flag⟩, ⟨ascii "port", .port⟩, ⟨ascii "allow_own_subnet", .flag⟩,
    ⟨ascii "log_file", .flag⟩, ⟨ascii "log_terminal", .flag⟩, ⟨ascii "log_file_size", .logFileSize⟩]

def fields : Section → List Field
  | dhcp => dhcpFields
  | dns => dnsFields
  | time => timeFields
  | security => securityFields
  | files => [⟨ascii "allow_own_subnet", .flag⟩]
  | device => deviceFields
  | deviceLog => [⟨ascii "log_file", .flag⟩, ⟨ascii "log_file_size", .logFileSize⟩]
  | ssh => sshFields

theorem find_field {part : Section} {field : Field} (hfield : field ∈ part.fields) :
    (part.fields.find? fun other ↦ other.name = field.name) = some field := by
  have htable : ∀ part : Section, ∀ field ∈ part.fields,
      (part.fields.find? fun other ↦ other.name = field.name) = some field := by
    intro part
    cases part <;> decide +kernel
  exact htable part field hfield

end Section

@[ext]
structure Device where
  settings : Section → Settings
  typed : ∀ part : Section, ∀ field ∈ part.fields,
    field.rule.admits (settings part field.name) = true

def brace : UInt8 := 0x7B

/-- `body.find('{', body.find("\"name\""))` and what follows. -/
def sectionText (body name : Bytes) : Option Bytes :=
  (find (quote :: name ++ [quote]) body).bind (find [brace])

def importField (env : Environment) (seg : Bytes) (current : Settings) (field : Field) : Setting :=
  field.rule.apply env (reading seg) current field.name

def importSection (env : Environment) (body : Bytes) (part : Section) (current : Settings) : Settings :=
  match sectionText body part.name with
  | none => current
  | some seg => fun key ↦
    match part.fields.find? fun field ↦ field.name = key with
    | some field => importField env seg current field
    | none => current key

def kMaxImportBodyBytes : Nat := 16384

def kFormat : Bytes := ascii "dhcpserver-settings"

/-- What a rule makes of any text has the type of the field. -/
theorem admits_apply (env : Environment) (read : Bytes → Reading) (current : Settings) {field : Field}
    (hcurrent : field.rule.admits (current field.name)) :
    field.rule.admits (field.rule.apply env read current field.name) := by
  obtain ⟨name, rule⟩ := field
  cases rule with
  | unsigned =>
    rw [Rule.apply]
    generalize (read name).int (toInt32 (current name).toInt) = value
    have hlow : 0 ≤ toUnsigned value := Int.emod_nonneg value (by decide)
    have hhigh : toUnsigned value < 0x100000000 := Int.emod_lt_of_pos value (by decide)
    simp [Rule.admits, Rule.kind, Setting.kind, Setting.toInt, hlow, hhigh]
  | flag | textSet | leaseEntries | clamped | period | autosaveInterval | autoUpdateInterval
  | timezone => rfl
  | textKept | oneOf | logFileSize | ntpServers | certName | https | certStorage | hostName | port =>
    simp only [Rule.apply]
    split
    · first
      | rfl
      | exact hcurrent
    · first
      | rfl
      | exact hcurrent

theorem admits_importSection (env : Environment) (body : Bytes) {part : Section} {current : Settings}
    {field : Field} (hfield : field ∈ part.fields)
    (hcurrent : field.rule.admits (current field.name)) :
    field.rule.admits (importSection env body part current field.name) := by
  rw [importSection]
  cases sectionText body part.name with
  | none => exact hcurrent
  | some seg =>
    dsimp only
    rw [Section.find_field hfield]
    exact admits_apply env (reading seg) current hcurrent

/-- The bodies `handlePostSettingsImport` takes. -/
def accepts (body : Bytes) : Bool :=
  body.length ≤ kMaxImportBodyBytes && !body.isEmpty && jsonGetStr body (ascii "format") = kFormat

/-- `handlePostSettingsImport`; `none` is a body that is refused. -/
def importSettings (env : Environment) (body : Bytes) (device : Device) : Option Device :=
  if accepts body then
    some {
      settings part := importSection env body part (device.settings part)
      typed part field hfield := admits_importSection env body hfield (device.typed part field hfield) }
  else none

theorem settings_of_import {env : Environment} {body : Bytes} {device imported : Device}
    (himport : importSettings env body device = some imported) (part : Section) :
    imported.settings part = importSection env body part (device.settings part) := by
  rw [importSettings] at himport
  split_ifs at himport
  cases himport
  rfl

theorem exists_import (env : Environment) {body : Bytes} (device : Device)
    (haccepts : accepts body) : ∃ imported, importSettings env body device = some imported :=
  ⟨_, if_pos haccepts⟩

def Kind.uniform (on : Bool) : Kind → Setting
  | flag => .flag on
  | number => .number 0
  | text => .text []

def uniformSettings (on : Bool) (part : Section) : Settings := fun key ↦
  match part.fields.find? fun field ↦ field.name = key with
  | some field => field.rule.kind.uniform on
  | none => .flag on

theorem uniformSettings_field (on : Bool) {part : Section} {field : Field}
    (hfield : field ∈ part.fields) :
    uniformSettings on part field.name = field.rule.kind.uniform on := by
  rw [uniformSettings, Section.find_field hfield]

def uniformDevice (on : Bool) : Device where
  settings := uniformSettings on
  typed part field hfield := by
    rw [uniformSettings_field on hfield]
    obtain ⟨name, rule⟩ := field
    cases rule <;> rfl

end DhcpServer.Web.SettingsImport
