import DhcpServer.Core.DnsConfig
import DhcpServer.Web.Json

/-!
# `POST /api/dns/settings`

The configuration `handlePostDnsSettings` makes of a body. It starts from a new `DnsConfig`, not from
the stored one, so a key the body does not have gets the default of the new object, also where the
handler says that an absent key keeps the current setting.
-/

namespace DhcpServer.Web.DnsSettings

open Library DhcpServer.Core DhcpServer.Core.DnsConfig Json

/-- The key of the body a field is taken from; the checksum is taken from none. -/
def jsonName : Key → Bytes
  | .enabled => ascii "enabled"
  | .externalDns => ascii "external_dns"
  | .logTerminal => ascii "log_terminal"
  | .logForwarded => ascii "log_forwarded"
  | .logLocal => ascii "log_local"
  | .logCache => ascii "log_cache"
  | .logRestSent => ascii "log_rest_sent"
  | .logRest => ascii "log_rest"
  | .logUrl => ascii "log_url"
  | .logFile => ascii "log_file"
  | .logFileForwarded => ascii "log_file_forwarded"
  | .logFileSize => ascii "log_file_size"
  | .logAuthEnabled => ascii "log_auth"
  | .logAuthUser => ascii "log_auth_user"
  | .logAuthPassword => ascii "log_auth_password"
  | .cacheRest => ascii "cache_rest"
  | .cacheRestRead => ascii "cache_rest_read"
  | .cacheRestWrite => ascii "cache_rest_write"
  | .cacheUrl => ascii "cache_url"
  | .cacheAuthEnabled => ascii "cache_auth"
  | .cacheAuthUser => ascii "cache_auth_user"
  | .cacheAuthPassword => ascii "cache_auth_password"
  | .cacheInternal => ascii "cache_internal"
  | .cacheInternalSizeMb => ascii "cache_internal_size_mb"
  | .cacheInternalIgnoreTtl => ascii "cache_internal_ignore_ttl"
  | .cacheInternalSaveStats => ascii "cache_internal_save_stats"
  | .cacheInternalSaveCache => ascii "cache_internal_save_cache"
  | .cacheInternalAutosave => ascii "cache_internal_autosave"
  | .cacheInternalAutosavePeriod => ascii "cache_internal_autosave_period"
  | .cacheInternalAutosaveInterval => ascii "cache_internal_autosave_interval"
  | .statsAutosave => ascii "stats_autosave"
  | .statsAutosavePeriod => ascii "stats_autosave_period"
  | .statsAutosaveInterval => ascii "stats_autosave_interval"
  | .cacheInternalAutoUpdate => ascii "cache_internal_autoupdate"
  | .cacheInternalAutoUpdatePeriod => ascii "cache_internal_autoupdate_period"
  | .cacheInternalAutoUpdateInterval => ascii "cache_internal_autoupdate_interval"
  | .cacheInternalAutoUpdateBatch => ascii "cache_internal_autoupdate_batch"
  | .cacheInternalAutoUpdatePause => ascii "cache_internal_autoupdate_pause"
  | .cacheInternalFileMd5 => []
  | .blockForwardNonAA => ascii "block_forward_non_aa"
  | .allowOwnSubnet => ascii "allow_own_subnet"

/-- A text of the body; an empty one stands for the default. -/
def postedText (body name default : Bytes) : Bytes :=
  let text := jsonGetStr body name
  if text.isEmpty then default else text

def postedPeriod (body name : Bytes) (default : AutosavePeriod) : AutosavePeriod :=
  .fromIndex (jsonGetInt body name default.index % 256).toNat

/-- The unit of an interval, which the handler has read before. -/
def postedUnit (body : Bytes) (unit : Key) : AutosavePeriod :=
  match unit.kind with
  | .period default => postedPeriod body (jsonName unit) default
  | _ => .hour

/-- The object the handler gives to `setDns`. -/
def posted (body : Bytes) : DnsConfig := fun key ↦
  if key = .cacheInternalFileMd5 then fresh key
  else
    let name := jsonName key
    match key.kind with
    | .flag default => flagValue (jsonGetBool body name default)
    | .text default => .str (postedText body name default)
    | .logFileSize => .int (logFileSizeOrDefault (jsonGetInt body name 0))
    | .cacheSizeMb => .int (cacheSizeMb (jsonGetInt body name 20))
    | .period default => periodValue (postedPeriod body name default)
    | .autosaveInterval unit =>
      .int (autosaveClampInterval (postedUnit body unit) (jsonGetInt body name 1 % 65536))
    | .autoUpdateInterval unit =>
      .int (autoUpdateClampInterval (postedUnit body unit) (jsonGetInt body name 1 % 65536))
    | .batch => .int (autoUpdateClampBatch (jsonGetInt body name 50))
    | .pause => .int (autoUpdateClampPause (jsonGetInt body name 60))

/-- Absent means "keep the current setting" for the files a restart keeps, the two autosaves and
the auto-update. -/
def keptWhenAbsent : Key → Bool
  | .cacheInternalSaveStats | .cacheInternalSaveCache | .cacheInternalAutosave
  | .cacheInternalAutosavePeriod | .cacheInternalAutosaveInterval | .statsAutosave
  | .statsAutosavePeriod | .statsAutosaveInterval | .cacheInternalAutoUpdate
  | .cacheInternalAutoUpdatePeriod | .cacheInternalAutoUpdateInterval
  | .cacheInternalAutoUpdateBatch | .cacheInternalAutoUpdatePause => true
  | _ => false

def meantBy (body : Bytes) (key : Key) : Bool :=
  key ≠ .cacheInternalFileMd5 && (!keptWhenAbsent key || present body (jsonName key))

theorem posted_of_not_meant {body : Bytes} {key : Key} (hmeant : meantBy body key = false) :
    posted body key = fresh key := by
  by_cases hmd5 : key = .cacheInternalFileMd5
  · rw [hmd5]
    rfl
  · have hkept : keptWhenAbsent key = true := by
      by_contra hfree
      simp [meantBy, hmd5, hfree] at hmeant
    have habsent : present body (jsonName key) = false := by
      simpa [meantBy, hmd5, hkept] using hmeant
    have hbool := jsonGetBool_of_absent habsent
    have hint := jsonGetInt_of_absent habsent
    rw [posted, if_neg hmd5]
    cases key <;>
      first
      | exact absurd hkept (by decide)
      | simp only [Key.kind, fresh, hbool, hint, postedPeriod] <;> rfl
      | simp only [Key.kind, fresh, hint, autosaveClampInterval, autoUpdateClampInterval]
        cases postedUnit body _ <;> rfl

theorem valid_posted (body : Bytes) : Valid (posted body) := by
  intro key
  have hunit {unit : Key} {default : AutosavePeriod} (hkind : unit.kind = .period default) :
      (posted body unit).unit = postedUnit body unit := by
    have hmd5 : unit ≠ .cacheInternalFileMd5 := by
      rintro rfl
      cases hkind
    simp only [posted, if_neg hmd5, hkind, postedUnit]
    cases postedPeriod body (jsonName unit) default <;> rfl
  rw [ValidAt]
  by_cases hmd5 : key = .cacheInternalFileMd5
  · subst hmd5
    exact ⟨[], rfl⟩
  · have hposted : posted body key = _ := if_neg hmd5
    cases hkind : key.kind with
    | flag | text | logFileSize | cacheSizeMb | period | batch | pause =>
      simp only [hkind] at hposted
      exact ⟨_, hposted⟩
    | autosaveInterval unit | autoUpdateInterval unit =>
      have hmem : key.unit? = some unit := by rw [Key.unit?, hkind]
      obtain ⟨default, hperiod⟩ := unit_kind hmem
      simp only [hkind] at hposted
      dsimp only
      rw [hunit hperiod]
      exact ⟨_, hposted⟩

end DhcpServer.Web.DnsSettings
