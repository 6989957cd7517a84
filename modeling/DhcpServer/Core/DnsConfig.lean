import DhcpServer.Library.Bytes
import Mathlib.Data.List.Nodup

/-!
# The DNS settings and their keys

`Config::getDns` and `Config::setDns`: one key of the non-volatile storage for each field of
`DnsConfig`, read and written one at a time in the order of `Key.all`. A key is named here after its
field, and `Key.kind` says how its value is read: the default for a key that is not there, and the
bounds a stored number is brought into. A `DnsConfig` is the values its fields have as `setDns`
writes them.
-/

namespace DhcpServer.Core

open Library List Function

/-! ## Bounds -/

inductive AutosavePeriod
  | hour
  | day
  | minute

namespace AutosavePeriod

def index : AutosavePeriod → Nat
  | hour => 0
  | day => 1
  | minute => 2

def fromIndex (index : Nat) : AutosavePeriod :=
  if index = 1 then day else if index = 2 then minute else hour

/-- The longest interval of the autosave when the month is not known. -/
def intervalMax : AutosavePeriod → Nat
  | hour => 24
  | day => 31
  | minute => 60

def updateIntervalMax : AutosavePeriod → Nat
  | day => 30
  | hour | minute => 24

end AutosavePeriod

/-- `value` brought between `low` and `high`. -/
def clamp (low high value : Int) : Int := if value < low then low else if high < value then high else value

theorem clamp_clamp {low high : Int} (hbounds : low ≤ high) (value : Int) :
    clamp low high (clamp low high value) = clamp low high value := by
  unfold clamp
  split_ifs <;> omega

def autosaveClampInterval (unit : AutosavePeriod) (interval : Int) : Int :=
  clamp 1 unit.intervalMax interval

def autoUpdateClampInterval (unit : AutosavePeriod) (interval : Int) : Int :=
  clamp 1 unit.updateIntervalMax interval

def autoUpdateClampBatch (value : Int) : Int := clamp 1 1000 value

def autoUpdateClampPause (value : Int) : Int := clamp 1 3600 value

def kLogFileDefaultMaxBytes : Int := 65536

def logFileSizeOrDefault (stored : Int) : Int :=
  if stored = 65536 ∨ stored = 131072 ∨ stored = 262144 then stored else kLogFileDefaultMaxBytes

/-- The size of the cache in megabytes, from a number taken as a `uint32_t`. -/
def cacheSizeMb (stored : Int) : Int := clamp 1 20 (stored % 0x100000000)

def kDefaultExternalDns : Bytes := ascii "192.168.1.1"

namespace DnsConfig

inductive Key
  | enabled | externalDns | logTerminal | logForwarded | logLocal | logCache | logRestSent | logRest
  | logUrl | logFile | logFileForwarded | logFileSize | logAuthEnabled | logAuthUser
  | logAuthPassword | cacheRest | cacheRestRead | cacheRestWrite | cacheUrl | cacheAuthEnabled
  | cacheAuthUser | cacheAuthPassword | cacheInternal | cacheInternalSizeMb
  | cacheInternalIgnoreTtl | cacheInternalSaveStats | cacheInternalSaveCache
  | cacheInternalAutosave | cacheInternalAutosavePeriod | cacheInternalAutosaveInterval
  | statsAutosave | statsAutosavePeriod | statsAutosaveInterval | cacheInternalAutoUpdate
  | cacheInternalAutoUpdatePeriod | cacheInternalAutoUpdateInterval | cacheInternalAutoUpdateBatch
  | cacheInternalAutoUpdatePause | cacheInternalFileMd5 | blockForwardNonAA | allowOwnSubnet
deriving DecidableEq

/-- The order in which `getDns` reads and `setDns` writes. -/
def Key.all : List Key :=
  [.enabled, .externalDns, .logTerminal, .logForwarded, .logLocal, .logCache, .logRestSent,
    .logRest, .logUrl, .logFile, .logFileForwarded, .logFileSize, .logAuthEnabled, .logAuthUser,
    .logAuthPassword, .cacheRest, .cacheRestRead, .cacheRestWrite, .cacheUrl, .cacheAuthEnabled,
    .cacheAuthUser, .cacheAuthPassword, .cacheInternal, .cacheInternalSizeMb,
    .cacheInternalIgnoreTtl, .cacheInternalSaveStats, .cacheInternalSaveCache,
    .cacheInternalAutosave, .cacheInternalAutosavePeriod, .cacheInternalAutosaveInterval,
    .statsAutosave, .statsAutosavePeriod, .statsAutosaveInterval, .cacheInternalAutoUpdate,
    .cacheInternalAutoUpdatePeriod, .cacheInternalAutoUpdateInterval,
    .cacheInternalAutoUpdateBatch, .cacheInternalAutoUpdatePause, .cacheInternalFileMd5,
    .blockForwardNonAA, .allowOwnSubnet]

theorem Key.mem_all (key : Key) : key ∈ Key.all := by
  cases key <;> decide

theorem Key.nodup_all : Key.all.Nodup := by
  decide

inductive Kind
  | flag (default : Bool)
  | text (default : Bytes)
  | logFileSize
  | cacheSizeMb
  | period (default : AutosavePeriod)
  /-- An interval of the autosave, with the key of its unit. -/
  | autosaveInterval (unit : Key)
  /-- The interval of the auto-update, with the key of its unit. -/
  | autoUpdateInterval (unit : Key)
  | batch
  | pause

def Key.kind : Key → Kind
  | enabled => .flag true
  | externalDns => .text kDefaultExternalDns
  | logTerminal => .flag false
  | logForwarded => .flag true
  | logLocal => .flag true
  | logCache => .flag true
  | logRestSent => .flag false
  | logRest => .flag false
  | logUrl => .text []
  | logFile => .flag false
  | logFileForwarded => .flag true
  | logFileSize => .logFileSize
  | logAuthEnabled => .flag false
  | logAuthUser => .text []
  | logAuthPassword => .text []
  | cacheRest => .flag false
  | cacheRestRead => .flag true
  | cacheRestWrite => .flag true
  | cacheUrl => .text []
  | cacheAuthEnabled => .flag false
  | cacheAuthUser => .text []
  | cacheAuthPassword => .text []
  | cacheInternal => .flag false
  | cacheInternalSizeMb => .cacheSizeMb
  | cacheInternalIgnoreTtl => .flag false
  | cacheInternalSaveStats => .flag true
  | cacheInternalSaveCache => .flag true
  | cacheInternalAutosave => .flag false
  | cacheInternalAutosavePeriod => .period .day
  | cacheInternalAutosaveInterval => .autosaveInterval .cacheInternalAutosavePeriod
  | statsAutosave => .flag false
  | statsAutosavePeriod => .period .day
  | statsAutosaveInterval => .autosaveInterval .statsAutosavePeriod
  | cacheInternalAutoUpdate => .flag false
  | cacheInternalAutoUpdatePeriod => .period .hour
  | cacheInternalAutoUpdateInterval => .autoUpdateInterval .cacheInternalAutoUpdatePeriod
  | cacheInternalAutoUpdateBatch => .batch
  | cacheInternalAutoUpdatePause => .pause
  | cacheInternalFileMd5 => .text []
  | blockForwardNonAA => .flag false
  | allowOwnSubnet => .flag true

/-! ## Values -/

inductive Value
  | int (number : Int)
  | str (text : Bytes)
deriving DecidableEq

abbrev Nvs := Key → Option Value

def readI32 (nvs : Nvs) (key : Key) (default : Int) : Int :=
  match nvs key with
  | some (.int number) => number
  | _ => default

def readStr (nvs : Nvs) (key : Key) (default : Bytes) : Bytes :=
  match nvs key with
  | some (.str text) => cString text
  | _ => default

def flagValue (flag : Bool) : Value := .int (if flag then 1 else 0)

def periodValue (period : AutosavePeriod) : Value := .int period.index

/-- The unit a value stands for, as an index of eight bits. -/
def Value.unit : Value → AutosavePeriod
  | int number => .fromIndex (number % 256).toNat
  | str _ => .hour

end DnsConfig

/-- The fields of a `DnsConfig`, each as `setDns` writes it. -/
abbrev DnsConfig := DnsConfig.Key → DnsConfig.Value

namespace DnsConfig

def fresh : DnsConfig := fun key ↦
  match key.kind with
  | .flag default => flagValue default
  | .text default => .str default
  | .logFileSize => .int kLogFileDefaultMaxBytes
  | .cacheSizeMb => .int 20
  | .period default => periodValue default
  | .autosaveInterval _ | .autoUpdateInterval _ => .int 1
  | .batch => .int 50
  | .pause => .int 60

/-- One read of `getDns`; an interval is brought into the bounds of the unit read before it. -/
def readKey (nvs : Nvs) (cfg : DnsConfig) (key : Key) : Value :=
  match key.kind with
  | .flag default => flagValue (readI32 nvs key (if default then 1 else 0) != 0)
  | .text default => .str (readStr nvs key default)
  | .logFileSize => .int (logFileSizeOrDefault (readI32 nvs key 0))
  | .cacheSizeMb => .int (cacheSizeMb (readI32 nvs key 20))
  | .period default =>
    periodValue (.fromIndex (readI32 nvs key default.index % 256).toNat)
  | .autosaveInterval unit =>
    .int (autosaveClampInterval (cfg unit).unit (readI32 nvs key 1 % 65536))
  | .autoUpdateInterval unit =>
    .int (autoUpdateClampInterval (cfg unit).unit (readI32 nvs key 1 % 65536))
  | .batch => .int (autoUpdateClampBatch (readI32 nvs key 50))
  | .pause => .int (autoUpdateClampPause (readI32 nvs key 60))

/-- `getDns` over a storage that nobody changes meanwhile: the units do not depend on what was read
before them. -/
def getDns (nvs : Nvs) : DnsConfig := fun key ↦ readKey nvs (readKey nvs fresh) key

/-- What `writeI32` or `writeStr` stores: a text ends at its first zero byte. -/
def Value.stored : Value → Value
  | int number => int number
  | str text => str (cString text)

def writeKey (nvs : Nvs) (cfg : DnsConfig) (key : Key) : Nvs := update nvs key (some (cfg key).stored)

/-- `setDns` with nobody in between. -/
def setDns (nvs : Nvs) (cfg : DnsConfig) : Nvs := Key.all.foldl (writeKey · cfg) nvs

/-! ## What is read back -/

theorem getDns_empty : getDns (fun _ ↦ none) = fresh := by
  funext key
  cases key <;> rfl

def Key.unit? (key : Key) : Option Key :=
  match key.kind with
  | .autosaveInterval unit | .autoUpdateInterval unit => some unit
  | _ => none

/-- A value that passes the checks of `getDns` for its key. -/
def ValidAt (cfg : DnsConfig) (key : Key) : Prop :=
  match key.kind with
  | .flag _ => ∃ flag, cfg key = flagValue flag
  | .text _ => ∃ text, cfg key = .str text
  | .logFileSize => ∃ size, cfg key = .int (logFileSizeOrDefault size)
  | .cacheSizeMb => ∃ size, cfg key = .int (cacheSizeMb size)
  | .period _ => ∃ period, cfg key = periodValue period
  | .autosaveInterval unit => ∃ interval, cfg key = .int (autosaveClampInterval (cfg unit).unit interval)
  | .autoUpdateInterval unit =>
    ∃ interval, cfg key = .int (autoUpdateClampInterval (cfg unit).unit interval)
  | .batch => ∃ batch, cfg key = .int (autoUpdateClampBatch batch)
  | .pause => ∃ pause, cfg key = .int (autoUpdateClampPause pause)

def Valid (cfg : DnsConfig) : Prop := ∀ key, ValidAt cfg key

variable {key unit : Key}

theorem unit_kind (hunit : key.unit? = some unit) : ∃ default, unit.kind = .period default := by
  cases key <;> cases hunit <;> exact ⟨_, rfl⟩

theorem clamp_bounded {low high : Int} (hlow : 1 ≤ low) (hbounds : low ≤ high) (hhigh : high < 65536)
    (value : Int) : clamp low high (clamp low high value % 65536) = clamp low high value := by
  unfold clamp
  split_ifs <;> omega

theorem autosaveClampInterval_again (unit : AutosavePeriod) (interval : Int) :
    autosaveClampInterval unit (autosaveClampInterval unit interval % 65536) =
      autosaveClampInterval unit interval := by
  cases unit <;> exact clamp_bounded (by decide) (by decide) (by decide) interval

theorem autoUpdateClampInterval_again (unit : AutosavePeriod) (interval : Int) :
    autoUpdateClampInterval unit (autoUpdateClampInterval unit interval % 65536) =
      autoUpdateClampInterval unit interval := by
  cases unit <;> exact clamp_bounded (by decide) (by decide) (by decide) interval

theorem logFileSizeOrDefault_again (size : Int) :
    logFileSizeOrDefault (logFileSizeOrDefault size) = logFileSizeOrDefault size := by
  unfold logFileSizeOrDefault kLogFileDefaultMaxBytes
  split_ifs <;> omega

theorem cacheSizeMb_again (size : Int) : cacheSizeMb (cacheSizeMb size) = cacheSizeMb size := by
  unfold cacheSizeMb clamp
  split_ifs <;> omega

theorem readKey_written {nvs : Nvs} {cfg other : DnsConfig} {key : Key} (hkey : ValidAt cfg key)
    (hstored : nvs key = some (cfg key).stored)
    (hunit : ∀ unit ∈ key.unit?, other unit = cfg unit) :
    readKey nvs other key = (cfg key).stored := by
  rw [readKey]
  cases hkind : key.kind with
  | flag default =>
    simp only [ValidAt, hkind] at hkey
    obtain ⟨flag, hflag⟩ := hkey
    simp only [readI32, hstored, hflag, flagValue, Value.stored]
    cases flag <;> rfl
  | text default =>
    simp only [ValidAt, hkind] at hkey
    obtain ⟨text, htext⟩ := hkey
    simp only [readStr, hstored, htext, Value.stored, cString, takeWhile_takeWhile,
      and_self, Bool.decide_eq_true]
  | logFileSize =>
    simp only [ValidAt, hkind] at hkey
    obtain ⟨size, hsize⟩ := hkey
    simp only [readI32, hstored, hsize, Value.stored, logFileSizeOrDefault_again]
  | cacheSizeMb =>
    simp only [ValidAt, hkind] at hkey
    obtain ⟨size, hsize⟩ := hkey
    simp only [readI32, hstored, hsize, Value.stored, cacheSizeMb_again]
  | period default =>
    simp only [ValidAt, hkind] at hkey
    obtain ⟨period, hperiod⟩ := hkey
    simp only [readI32, hstored, hperiod, periodValue, Value.stored]
    cases period <;> rfl
  | autosaveInterval unit =>
    simp only [ValidAt, hkind] at hkey
    obtain ⟨interval, hinterval⟩ := hkey
    have hmem : key.unit? = some unit := by rw [Key.unit?, hkind]
    simp only [readI32, hstored, hinterval, Value.stored, hunit unit hmem, autosaveClampInterval_again]
  | autoUpdateInterval unit =>
    simp only [ValidAt, hkind] at hkey
    obtain ⟨interval, hinterval⟩ := hkey
    have hmem : key.unit? = some unit := by rw [Key.unit?, hkind]
    simp only [readI32, hstored, hinterval, Value.stored, hunit unit hmem, autoUpdateClampInterval_again]
  | batch =>
    simp only [ValidAt, hkind] at hkey
    obtain ⟨batch, hbatch⟩ := hkey
    simp only [readI32, hstored, hbatch, Value.stored, autoUpdateClampBatch,
      clamp_clamp (show (1 : Int) ≤ 1000 by decide)]
  | pause =>
    simp only [ValidAt, hkind] at hkey
    obtain ⟨pause, hpause⟩ := hkey
    simp only [readI32, hstored, hpause, Value.stored, autoUpdateClampPause,
      clamp_clamp (show (1 : Int) ≤ 3600 by decide)]

theorem readKey_congr {nvs nvs' : Nvs} {cfg cfg' : DnsConfig} {key : Key}
    (hsame : nvs key = nvs' key) (hunit : ∀ unit ∈ key.unit?, cfg unit = cfg' unit) :
    readKey nvs cfg key = readKey nvs' cfg' key := by
  rw [readKey, readKey]
  cases hkind : key.kind with
  | flag | logFileSize | cacheSizeMb | period | batch | pause => simp only [readI32, hsame]
  | text => simp only [readStr, hsame]
  | autosaveInterval unit | autoUpdateInterval unit =>
    have hmem : key.unit? = some unit := by rw [Key.unit?, hkind]
    simp only [readI32, hsame, hunit unit hmem]

theorem unit_unit (hunit : key.unit? = some unit) : unit.unit? = none := by
  obtain ⟨default, hperiod⟩ := unit_kind hunit
  rw [Key.unit?, hperiod]

theorem readKey_unit (hunit : key.unit? = some unit) (nvs : Nvs)
    (cfg other : DnsConfig) : readKey nvs cfg unit = readKey nvs other unit :=
  readKey_congr rfl (by simp [unit_unit hunit])

theorem stored_period {cfg : DnsConfig} (hunit : key.unit? = some unit)
    (hvalid : Valid cfg) : (cfg unit).stored = cfg unit := by
  obtain ⟨default, hperiod⟩ := unit_kind hunit
  have hvalue := hvalid unit
  simp only [ValidAt, hperiod] at hvalue
  obtain ⟨period, hvalue⟩ := hvalue
  rw [hvalue]
  rfl

/-- What `setDns` has written for a key, and for the unit of an interval, is what `getDns` reads. -/
theorem getDns_of_written {nvs : Nvs} {cfg : DnsConfig} (hvalid : Valid cfg) {key : Key}
    (hstored : nvs key = some (cfg key).stored)
    (hunit : ∀ unit ∈ key.unit?, nvs unit = some (cfg unit).stored) :
    getDns nvs key = (cfg key).stored := by
  apply readKey_written (hvalid key) hstored
  intro unit hmem
  rw [readKey_written (hvalid unit) (hunit unit hmem) (by simp [unit_unit hmem]), stored_period hmem hvalid]

theorem valid_getDns (nvs : Nvs) : Valid (getDns nvs) := by
  intro key
  have hunit {unit : Key} (hmem : key.unit? = some unit) :
      readKey nvs fresh unit = getDns nvs unit := readKey_unit hmem nvs _ _
  rw [ValidAt]
  cases hkind : key.kind with
  | flag | text | logFileSize | cacheSizeMb | period | batch | pause =>
    simp only [getDns, readKey, hkind]
    exact ⟨_, rfl⟩
  | autosaveInterval unit =>
    have hmem : key.unit? = some unit := by rw [Key.unit?, hkind]
    dsimp only
    rw [← hunit hmem]
    simp only [getDns, readKey, hkind]
    exact ⟨_, rfl⟩
  | autoUpdateInterval unit =>
    have hmem : key.unit? = some unit := by rw [Key.unit?, hkind]
    dsimp only
    rw [← hunit hmem]
    simp only [getDns, readKey, hkind]
    exact ⟨_, rfl⟩

theorem getDns_update_of_ne {nvs : Nvs} {key other : Key} (hne : other ≠ key)
    (hunit : other.unit? ≠ some key) (value : Option Value) :
    getDns (update nvs key value) other = getDns nvs other := by
  apply readKey_congr (update_of_ne hne _ _)
  intro unit hmem
  have hother : unit ≠ key := by
    rintro rfl
    exact hunit hmem
  exact readKey_congr (update_of_ne hother _ _) fun _ _ ↦ rfl

theorem cString_cString (text : Bytes) : cString (cString text) = cString text := by
  simp only [cString, takeWhile_takeWhile, and_self, Bool.decide_eq_true]

theorem stored_getDns (nvs : Nvs) (key : Key) : (getDns nvs key).stored = getDns nvs key := by
  have hdefault {default : Bytes} (hkind : key.kind = .text default) :
      cString default = default := by
    cases key <;> cases hkind <;> rfl
  rw [getDns, readKey]
  cases hkind : key.kind with
  | text default =>
    simp only [Value.stored, readStr]
    split
    · rw [cString_cString]
    · rw [hdefault hkind]
  | flag | logFileSize | cacheSizeMb | period | autosaveInterval | autoUpdateInterval | batch
  | pause => rfl

theorem getDns_update_self (nvs : Nvs) (key : Key) :
    getDns (update nvs key (some (getDns nvs key))) = getDns nvs := by
  have hvalid := valid_getDns nvs
  have hwritten : update nvs key (some (getDns nvs key)) key =
      some (getDns nvs key).stored := by rw [update_self, stored_getDns]
  have hunits {other unit : Key} (hmem : other.unit? = some unit) :
      readKey (update nvs key (some (getDns nvs key))) fresh unit =
        readKey nvs fresh unit := by
    by_cases hunit : unit = key
    · subst hunit
      rw [readKey_written (hvalid unit) hwritten (by simp [unit_unit hmem]), stored_getDns]
      exact readKey_unit hmem nvs _ _
    · exact readKey_congr (update_of_ne hunit _ _) fun _ _ ↦ rfl
  funext other
  by_cases hother : other = key
  · subst hother
    refine (readKey_written (hvalid other) hwritten ?_).trans (stored_getDns nvs other)
    intro unit hmem
    rw [hunits hmem]
    exact readKey_unit hmem nvs _ _
  · apply readKey_congr (update_of_ne hother _ _)
    intro unit hmem
    exact hunits hmem

theorem getDns_update_unit {nvs : Nvs} (hunit : key.unit? = some unit)
    (hone : getDns nvs key = .int 1) (value : Option Value) :
    getDns (update nvs unit value) key = .int 1 := by
  have hne : key ≠ unit := by
    rintro rfl
    simp [unit_unit hunit] at hunit
  have hsame : update nvs unit value key = nvs key := update_of_ne hne _ _
  have hinterval {number : Int} (first second : AutosavePeriod)
      (hfirst : autosaveClampInterval first number = 1) :
      autosaveClampInterval second number = 1 := by
    unfold autosaveClampInterval clamp at *
    cases first <;> cases second <;> simp only [AutosavePeriod.intervalMax] at * <;>
      split_ifs at * <;> omega
  have hupdate {number : Int} (first second : AutosavePeriod)
      (hfirst : autoUpdateClampInterval first number = 1) :
      autoUpdateClampInterval second number = 1 := by
    unfold autoUpdateClampInterval clamp at *
    cases first <;> cases second <;> simp only [AutosavePeriod.updateIntervalMax] at * <;>
      split_ifs at * <;> omega
  rw [getDns, readKey] at hone ⊢
  rw [Key.unit?] at hunit
  cases hkind : key.kind with
  | autosaveInterval | autoUpdateInterval =>
    simp only [hkind, Value.int.injEq] at hone ⊢
    simp only [readI32, hsame] at hone ⊢
    first
    | exact hinterval _ _ hone
    | exact hupdate _ _ hone
  | flag | text | logFileSize | cacheSizeMb | period | batch | pause => simp [hkind] at hunit

theorem Key.unit_before {done left : List Key}
    (hsplit : Key.all = done ++ key :: left) (hunit : key.unit? = some unit) : unit ∈ done := by
  have hnew : key ∉ done := by
    have hnodup := Key.nodup_all
    rw [hsplit] at hnodup
    exact fun hmem ↦ disjoint_of_nodup_append hnodup hmem mem_cons_self
  have hdone : Key.all.takeWhile (· ≠ key) = done := by
    rw [hsplit, takeWhile_append_of_pos (by
      intro other hother
      simpa using fun heq : other = key ↦ hnew (heq ▸ hother))]
    simp
  rw [← hdone]
  cases key <;> cases hunit <;> decide

end DnsConfig

end DhcpServer.Core
