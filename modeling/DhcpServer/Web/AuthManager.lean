import DhcpServer.Library.Bytes

/-!
# The login limiter

`AuthManager::verify` and what it calls, on one reading of the clock. The counters are a map from
client addresses. What a call does to the counter of its own address is `attemptOn`; to the counters
of the other addresses it only does what `cleanupExpired` does.

The base64 decoder is the one of mbedTLS, here a function of the text behind the scheme; it gives no
bytes where the decoding fails.
-/

namespace DhcpServer.Web.AuthManager

open Library Function

structure FailedEntry where
  count : UInt32 := 0
  firstAttemptTime : UInt32 := 0

structure Settings where
  username : Bytes
  password : Bytes
  maxAttempts : UInt32
  lockoutPeriodSec : UInt32

inductive AuthNote
  | login (ip : Bytes) (failedBefore : UInt32)
  | failedAttempt (ip : Bytes) (count maxAttempts : UInt32)
  | lockout (ip : Bytes) (periodSec : UInt32)
deriving DecidableEq

abbrev FailedAttempts := Bytes → Option FailedEntry

/-- A call of `verify`, `seconds` after the device started. -/
structure Attempt where
  seconds : Nat
  authHeader : Bytes
  clientIp : Bytes
  fromLoginForm : Bool

def kBasicPrefix : Bytes := ascii "Basic "

def countsAsFailedAttempt (authHeader : Bytes) : Bool :=
  kBasicPrefix.length < authHeader.length && kBasicPrefix.isPrefixOf authHeader

def authLogWritesSuccess (fromLoginForm : Bool) (failedBefore : UInt32) : Bool :=
  fromLoginForm || 0 < failedBefore

def getCurrentTimeSec (seconds : Nat) : UInt32 := UInt32.ofNat seconds

variable (settings : Settings)

/-- The test that `cleanupExpired` and `isLockedOut` make. -/
def expired (now : UInt32) (entry : FailedEntry) : Bool :=
  settings.lockoutPeriodSec < now - entry.firstAttemptTime

/-- The counter of one address after `cleanupExpired`. -/
def live (now : UInt32) (entry : Option FailedEntry) : Option FailedEntry :=
  entry.filter fun entry ↦ !expired settings now entry

def cleanupExpired (now : UInt32) (attempts : FailedAttempts) : FailedAttempts :=
  fun ip ↦ live settings now (attempts ip)

def isLockedOut (now : UInt32) (attempts : FailedAttempts) (clientIp : Bytes) : FailedAttempts × Bool :=
  match attempts clientIp with
  | none => (attempts, false)
  | some entry =>
    if expired settings now entry then (update attempts clientIp none, false)
    else (attempts, settings.maxAttempts ≤ entry.count)

def countFailure (now : UInt32) (entry : Option FailedEntry) : FailedEntry :=
  let entry := entry.getD {}
  ⟨entry.count + 1, if entry.count = 0 then now else entry.firstAttemptTime⟩

def failureNotes (clientIp : Bytes) (counted : FailedEntry) : List AuthNote :=
  .failedAttempt clientIp counted.count settings.maxAttempts ::
    if settings.maxAttempts ≤ counted.count then [.lockout clientIp settings.lockoutPeriodSec] else []

def recordFailure (now : UInt32) (attempts : FailedAttempts) (clientIp : Bytes) :
    FailedAttempts × List AuthNote :=
  let counted := countFailure now (attempts clientIp)
  (update attempts clientIp (some counted), failureNotes settings clientIp counted)

variable (decode : Bytes → Bytes)

/-- The header carries the user name and the password, up to and behind the first colon. Where
nothing was decoded there is no colon. -/
def credentialsMatch (authHeader : Bytes) : Bool :=
  let credentials := decode (authHeader.drop kBasicPrefix.length)
  match credentials.idxOf? 0x3A with
  | none => false
  | some colonPos =>
    credentials.take colonPos == settings.username && credentials.drop (colonPos + 1) == settings.password

structure Verdict where
  attempts : FailedAttempts
  granted : Bool
  notes : List AuthNote

def verify (attempts : FailedAttempts) (attempt : Attempt) : Verdict :=
  let now := getCurrentTimeSec attempt.seconds
  let (attempts, lockedOut) :=
    isLockedOut settings now (cleanupExpired settings now attempts) attempt.clientIp
  if lockedOut then ⟨attempts, false, []⟩
  else if !countsAsFailedAttempt attempt.authHeader then ⟨attempts, false, []⟩
  else if credentialsMatch settings decode attempt.authHeader then
    let failedBefore := ((attempts attempt.clientIp).map FailedEntry.count).getD 0
    ⟨update attempts attempt.clientIp none, true, if authLogWritesSuccess attempt.fromLoginForm failedBefore
      then [.login attempt.clientIp failedBefore] else []⟩
  else
    let (attempts, notes) := recordFailure settings now attempts attempt.clientIp
    ⟨attempts, false, notes⟩

def attemptsAfter (attempts : FailedAttempts) (calls : List Attempt) : FailedAttempts :=
  calls.foldl (fun attempts call ↦ (verify settings decode attempts call).attempts) attempts

structure Outcome where
  entry : Option FailedEntry
  granted : Bool
  notes : List AuthNote

/-- What a call makes of the counter of its own address, once that is cleaned up. -/
def attemptOn (entry : Option FailedEntry) (attempt : Attempt) : Outcome :=
  if entry.any (fun entry ↦ settings.maxAttempts ≤ entry.count) then ⟨entry, false, []⟩
  else if !countsAsFailedAttempt attempt.authHeader then ⟨entry, false, []⟩
  else if credentialsMatch settings decode attempt.authHeader then
    let failedBefore := (entry.map FailedEntry.count).getD 0
    ⟨none, true, if authLogWritesSuccess attempt.fromLoginForm failedBefore
      then [.login attempt.clientIp failedBefore] else []⟩
  else
    let counted := countFailure (getCurrentTimeSec attempt.seconds) entry
    ⟨some counted, false, failureNotes settings attempt.clientIp counted⟩

section Verify

variable {settings decode} {attempts : FailedAttempts} {attempt : Attempt} {now : UInt32}
  {entry : Option FailedEntry}

theorem not_expired_of_mem_live {kept : FailedEntry} (hkept : kept ∈ live settings now entry) :
    expired settings now kept = false := by
  obtain ⟨-, hexpired⟩ := Option.mem_filter_iff.mp hkept
  simpa using hexpired

theorem isLockedOut_cleaned (clientIp : Bytes) :
    isLockedOut settings now (cleanupExpired settings now attempts) clientIp =
      (cleanupExpired settings now attempts,
        (live settings now (attempts clientIp)).any fun entry ↦ settings.maxAttempts ≤ entry.count) := by
  unfold isLockedOut
  change (match live settings now (attempts clientIp) with | none => _ | some entry => _) = _
  cases hlive : live settings now (attempts clientIp) with
  | none => rfl
  | some entry =>
    have hfresh := not_expired_of_mem_live hlive
    simp [hfresh]

theorem verify_eq (settings : Settings) (decode : Bytes → Bytes) (attempts : FailedAttempts)
    (attempt : Attempt) :
    verify settings decode attempts attempt =
      let outcome := attemptOn settings decode
        (live settings (getCurrentTimeSec attempt.seconds) (attempts attempt.clientIp)) attempt
      ⟨update (cleanupExpired settings (getCurrentTimeSec attempt.seconds) attempts)
        attempt.clientIp outcome.entry, outcome.granted, outcome.notes⟩ := by
  have hself : update
      (cleanupExpired settings (getCurrentTimeSec attempt.seconds) attempts) attempt.clientIp
      (live settings (getCurrentTimeSec attempt.seconds) (attempts attempt.clientIp)) =
        cleanupExpired settings (getCurrentTimeSec attempt.seconds) attempts :=
    update_eq_self _ _
  have hcleaned : cleanupExpired settings (getCurrentTimeSec attempt.seconds) attempts
      attempt.clientIp =
        live settings (getCurrentTimeSec attempt.seconds) (attempts attempt.clientIp) := rfl
  unfold verify attemptOn
  simp only [isLockedOut_cleaned, hcleaned, recordFailure]
  split_ifs
  · rw [hself]
  · rw [hself]
  · rfl
  · rfl
  · rfl

theorem verify_self : (verify settings decode attempts attempt).attempts attempt.clientIp =
      (attemptOn settings decode
        (live settings (getCurrentTimeSec attempt.seconds) (attempts attempt.clientIp)) attempt).entry := by
  rw [verify_eq]
  exact update_self _ _ _

theorem verify_of_ne {ip : Bytes} (hip : ip ≠ attempt.clientIp) :
    (verify settings decode attempts attempt).attempts ip =
      live settings (getCurrentTimeSec attempt.seconds) (attempts ip) := by
  rw [verify_eq]
  exact update_of_ne hip _ _

end Verify

end DhcpServer.Web.AuthManager
