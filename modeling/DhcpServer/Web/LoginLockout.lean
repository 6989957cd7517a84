import DhcpServer.Web.AuthManager

/-!
# Runs of the login limiter

Calls at times that do not go back and stay below the wrap of the 32-bit seconds. The calls of one
address are judged as if nobody else had called.

The period of a lockout counts from the first failure of the counter, while the lockout is announced
at the last one. So a lockout holds for the announced period where the failures that led to it came
within a second, and ends too early otherwise.
-/

namespace DhcpServer.Web.AuthManager

open Library List

def kSecondsWrap : Nat := 0x100000000

/-- The times of the calls, from `seconds` on. -/
structure InOrder (seconds : Nat) (calls : List Attempt) : Prop where
  sorted : (calls.map Attempt.seconds).Pairwise (· ≤ ·)
  later : ∀ call ∈ calls, seconds ≤ call.seconds
  inside : ∀ call ∈ calls, call.seconds < kSecondsWrap

theorem InOrder.head {seconds : Nat} {call : Attempt} {calls : List Attempt}
    (horder : InOrder seconds (call :: calls)) : seconds ≤ call.seconds ∧ call.seconds < kSecondsWrap :=
  ⟨horder.later call mem_cons_self, horder.inside call mem_cons_self⟩

theorem InOrder.tail {seconds : Nat} {call : Attempt} {calls : List Attempt}
    (horder : InOrder seconds (call :: calls)) : InOrder call.seconds calls := by
  obtain ⟨hsorted, -, hinside⟩ := horder
  rw [map_cons, pairwise_cons] at hsorted
  refine ⟨hsorted.2, ?_, fun other hother ↦ hinside other (mem_cons_of_mem call hother)⟩
  exact fun other hother ↦ hsorted.1 _ (mem_map_of_mem hother)

theorem InOrder.append {seconds : Nat} {before after : List Attempt}
    (horder : InOrder seconds (before ++ after)) :
    InOrder seconds before ∧ (∀ earlier ∈ before, ∀ call ∈ after, earlier.seconds ≤ call.seconds) ∧
      InOrder seconds after := by
  obtain ⟨hsorted, hlater, hinside⟩ := horder
  rw [map_append, pairwise_append] at hsorted
  refine ⟨⟨hsorted.1, ?_, ?_⟩, ?_, ⟨hsorted.2.1, ?_, ?_⟩⟩
  · exact fun call hcall ↦ hlater call (mem_append_left _ hcall)
  · exact fun call hcall ↦ hinside call (mem_append_left _ hcall)
  · exact fun earlier hearlier call hcall ↦
      hsorted.2.2 _ (mem_map_of_mem hearlier) _ (mem_map_of_mem hcall)
  · exact fun call hcall ↦ hlater call (mem_append_right _ hcall)
  · exact fun call hcall ↦ hinside call (mem_append_right _ hcall)

variable {settings : Settings} {decode : Bytes → Bytes} {attempts : FailedAttempts} {call : Attempt}
  {calls : List Attempt} {seconds : Nat} {entry : FailedEntry} {ip : Bytes}

theorem expired_iff (hfirst : entry.firstAttemptTime.toNat ≤ seconds) (hwrap : seconds < kSecondsWrap) :
    expired settings (getCurrentTimeSec seconds) entry ↔
      entry.firstAttemptTime.toNat + settings.lockoutPeriodSec.toNat < seconds := by
  have hnow : (getCurrentTimeSec seconds).toNat = seconds := UInt32.toNat_ofNat_of_lt' hwrap
  have hle : entry.firstAttemptTime ≤ getCurrentTimeSec seconds := by
    rw [UInt32.le_iff_toNat_le, hnow]
    exact hfirst
  rw [expired, decide_eq_true_iff, UInt32.lt_iff_toNat_lt, UInt32.toNat_sub_of_le _ _ hle, hnow]
  omega

def Dated (attempts : FailedAttempts) (seconds : Nat) : Prop :=
  ∀ ip, ∀ entry ∈ attempts ip, entry.firstAttemptTime.toNat ≤ seconds

theorem Dated.later {later : Nat} (hdated : Dated attempts seconds) (hlater : seconds ≤ later) :
    Dated attempts later :=
  fun ip entry hentry ↦ (hdated ip entry hentry).trans hlater

variable {stored : Option FailedEntry}

theorem mem_of_mem_live {now : UInt32}
    (hentry : entry ∈ live settings now stored) : entry ∈ stored :=
  (Option.mem_filter_iff.mp hentry).1

theorem attemptOn_first (hentry : entry ∈ (attemptOn settings decode stored call).entry) :
    (∃ old ∈ stored, entry.firstAttemptTime = old.firstAttemptTime) ∨
      entry.firstAttemptTime = getCurrentTimeSec call.seconds := by
  unfold attemptOn at hentry
  split_ifs at hentry
  · exact .inl ⟨entry, hentry, rfl⟩
  · exact .inl ⟨entry, hentry, rfl⟩
  · cases hentry
  · cases hentry
    cases stored with
    | none => exact .inr rfl
    | some old =>
      by_cases hzero : old.count = 0
      · exact .inr (by simp [countFailure, hzero])
      · exact .inl ⟨old, rfl, by simp [countFailure, hzero]⟩

theorem dated_verify (hdated : Dated attempts seconds) (hlater : seconds ≤ call.seconds)
    (hwrap : call.seconds < kSecondsWrap) :
    Dated (verify settings decode attempts call).attempts call.seconds := by
  intro ip entry hentry
  by_cases hip : ip = call.clientIp
  · subst hip
    rw [verify_self] at hentry
    rcases attemptOn_first hentry with ⟨old, hold, hfirst⟩ | hfirst
    · rw [hfirst]
      exact (hdated _ old (mem_of_mem_live hold)).trans hlater
    · rw [hfirst]
      exact (UInt32.toNat_ofNat_of_lt' hwrap).le
  · rw [verify_of_ne hip] at hentry
    exact (hdated ip entry (mem_of_mem_live hentry)).trans hlater

theorem attemptsAfter_cons : attemptsAfter settings decode attempts (call :: calls) =
      attemptsAfter settings decode (verify settings decode attempts call).attempts calls := rfl

theorem dated_after {last : Nat} (hdated : Dated attempts seconds) (horder : InOrder seconds calls)
    (hlast : ∀ call ∈ calls, call.seconds ≤ last) (hseconds : seconds ≤ last) :
    Dated (attemptsAfter settings decode attempts calls) last := by
  induction calls generalizing attempts seconds with
  | nil => exact hdated.later hseconds
  | cons call calls ih =>
    obtain ⟨hfirst, hrest⟩ := forall_mem_cons.mp hlast
    rw [attemptsAfter_cons]
    exact ih (dated_verify hdated horder.head.1 horder.head.2) horder.tail hrest hfirst

/-- Two maps have the same counter of an address, now and later, apart from what has expired. -/
def SameCounter (settings : Settings) (ip : Bytes) (seconds : Nat) (left right : FailedAttempts) : Prop :=
  ∀ later, seconds ≤ later → later < kSecondsWrap → live settings (getCurrentTimeSec later) (left ip) =
      live settings (getCurrentTimeSec later) (right ip)

theorem live_live {later : Nat}
    (hdated : ∀ entry ∈ stored, entry.firstAttemptTime.toNat ≤ seconds) (hlater : seconds ≤ later)
    (hwrap : later < kSecondsWrap) :
    live settings (getCurrentTimeSec later) (live settings (getCurrentTimeSec seconds) stored) =
      live settings (getCurrentTimeSec later) stored := by
  cases stored with
  | none => rfl
  | some entry =>
    have hfirst := hdated entry rfl
    by_cases hexpired : expired settings (getCurrentTimeSec seconds) entry
    · have hstill : expired settings (getCurrentTimeSec later) entry = true := by
        rw [expired_iff hfirst (by omega)] at hexpired
        rw [expired_iff (hfirst.trans hlater) hwrap]
        omega
      simp [live, Option.filter, hexpired, hstill]
    · simp [live, Option.filter, hexpired]

variable {right : FailedAttempts}

theorem sameCounter_own (hsame : SameCounter settings call.clientIp seconds attempts right)
    (hlater : seconds ≤ call.seconds) (hwrap : call.seconds < kSecondsWrap) :
    SameCounter settings call.clientIp call.seconds (verify settings decode attempts call).attempts
      (verify settings decode right call).attempts := by
  intro later _ _
  rw [verify_self, verify_self, hsame call.seconds hlater hwrap]

theorem sameCounter_other (hdated : Dated attempts seconds)
    (hsame : SameCounter settings ip seconds attempts right) (hip : ip ≠ call.clientIp)
    (hlater : seconds ≤ call.seconds) :
    SameCounter settings ip call.seconds (verify settings decode attempts call).attempts right := by
  intro later hafter hwrap
  have hfirst : ∀ entry ∈ attempts ip, entry.firstAttemptTime.toNat ≤ call.seconds :=
    fun entry hentry ↦ (hdated ip entry hentry).trans hlater
  rw [verify_of_ne hip, live_live hfirst hafter hwrap]
  exact hsame later (hlater.trans hafter) hwrap

def callsFrom (ip : Bytes) (calls : List Attempt) : List Attempt :=
  calls.filter fun call ↦ call.clientIp == ip

theorem sameCounter_after {last : Nat} (hdated : Dated attempts seconds)
    (horder : InOrder seconds calls) (hlast : ∀ call ∈ calls, call.seconds ≤ last)
    (hseconds : seconds ≤ last) (hsame : SameCounter settings ip seconds attempts right) :
    SameCounter settings ip last (attemptsAfter settings decode attempts calls)
      (attemptsAfter settings decode right (callsFrom ip calls)) := by
  induction calls generalizing attempts right seconds with
  | nil => exact fun later hlater ↦ hsame later (hseconds.trans hlater)
  | cons call calls ih =>
    obtain ⟨hfirst, hrest⟩ := forall_mem_cons.mp hlast
    obtain ⟨hlater, hwrap⟩ := horder.head
    have hdated' : Dated (verify settings decode attempts call).attempts call.seconds :=
      dated_verify hdated hlater hwrap
    rw [attemptsAfter_cons]
    by_cases hip : call.clientIp = ip
    · subst hip
      have hfilter : callsFrom call.clientIp (call :: calls) =
          call :: callsFrom call.clientIp calls := by simp [callsFrom]
      rw [hfilter, attemptsAfter_cons]
      exact ih hdated' horder.tail hrest hfirst (sameCounter_own hsame hlater hwrap)
    · have hfilter : callsFrom ip (call :: calls) = callsFrom ip calls := by simp [callsFrom, hip]
      rw [hfilter]
      exact ih hdated' horder.tail hrest hfirst (sameCounter_other hdated hsame (Ne.symm hip) hlater)

theorem verify_congr (hsame : SameCounter settings call.clientIp call.seconds attempts right)
    (hwrap : call.seconds < kSecondsWrap) :
    (verify settings decode attempts call).granted = (verify settings decode right call).granted ∧
      (verify settings decode attempts call).notes = (verify settings decode right call).notes := by
  rw [verify_eq, verify_eq, hsame call.seconds le_rfl hwrap]
  exact ⟨rfl, rfl⟩

/-- The call fails and is the one that uses the budget up. -/
def Locks (settings : Settings) (decode : Bytes → Bytes) (attempts : FailedAttempts)
    (call : Attempt) : Prop :=
  .failedAttempt call.clientIp settings.maxAttempts settings.maxAttempts ∈
    (verify settings decode attempts call).notes

/-- A call with wrong credentials that finds one failure left comes at most a second after the first
failure. -/
def Prompt (settings : Settings) (decode : Bytes → Bytes) (attempts : FailedAttempts)
    (call : Attempt) : Prop :=
  countsAsFailedAttempt call.authHeader = true → credentialsMatch settings decode call.authHeader = false →
    ∀ entry ∈ live settings (getCurrentTimeSec call.seconds) (attempts call.clientIp),
      entry.count + 1 = settings.maxAttempts → call.seconds ≤ entry.firstAttemptTime.toNat + 1

/-- The address is refused until the period is over that began with the first failure. -/
structure LockedOut (settings : Settings) (attempts : FailedAttempts) (ip : Bytes)
    (entry : FailedEntry) : Prop where
  lookup : attempts ip = some entry
  full : settings.maxAttempts ≤ entry.count

theorem attemptOn_of_failedAttempt {count maxAttempts : UInt32}
    (hnote : .failedAttempt ip count maxAttempts ∈ (attemptOn settings decode stored call).notes) :
    countsAsFailedAttempt call.authHeader ∧
      credentialsMatch settings decode call.authHeader = false ∧
      (attemptOn settings decode stored call).entry =
        some (countFailure (getCurrentTimeSec call.seconds) stored) ∧
      count = (countFailure (getCurrentTimeSec call.seconds) stored).count := by
  unfold attemptOn at hnote ⊢
  split_ifs at hnote ⊢ with hfull hcounts hmatch
  · cases hnote
  · cases hnote
  · simp at hnote
  · refine ⟨by simpa using hcounts, by simpa using hmatch, rfl, ?_⟩
    rcases mem_cons.mp hnote with heq | hrest
    · injection heq
    · split_ifs at hrest
      · simp at hrest
      · cases hrest

theorem lockedOut_of_locks (hdated : Dated attempts call.seconds) (hwrap : call.seconds < kSecondsWrap)
    (hlocks : Locks settings decode attempts call) (hprompt : Prompt settings decode attempts call) :
    ∃ entry, LockedOut settings (verify settings decode attempts call).attempts call.clientIp entry ∧
      entry.firstAttemptTime.toNat ≤ call.seconds ∧
      call.seconds ≤ entry.firstAttemptTime.toNat + 1 := by
  have hnow : (getCurrentTimeSec call.seconds).toNat = call.seconds := UInt32.toNat_ofNat_of_lt' hwrap
  rw [Locks, verify_eq] at hlocks
  obtain ⟨hcounts, hwrong, hentry, hcount⟩ := attemptOn_of_failedAttempt hlocks
  refine ⟨_, ⟨verify_self.trans hentry, UInt32.le_of_eq hcount⟩, ?_⟩
  cases hold : live settings (getCurrentTimeSec call.seconds) (attempts call.clientIp) with
  | none => simp [countFailure, hnow]
  | some old =>
    by_cases hzero : old.count = 0
    · simp [countFailure, hzero, hnow]
    · have hfirst : (countFailure (getCurrentTimeSec call.seconds) (some old)).firstAttemptTime =
          old.firstAttemptTime := by simp [countFailure, hzero]
      rw [hold] at hcount
      rw [hfirst]
      exact ⟨hdated _ old (mem_of_mem_live hold), hprompt hcounts hwrong old hold hcount.symm⟩

theorem LockedOut.verify (hlocked : LockedOut settings attempts ip entry)
    (hfirst : entry.firstAttemptTime.toNat ≤ call.seconds)
    (hperiod : call.seconds ≤ entry.firstAttemptTime.toNat + settings.lockoutPeriodSec.toNat)
    (hwrap : call.seconds < kSecondsWrap) :
    LockedOut settings (AuthManager.verify settings decode attempts call).attempts ip entry ∧
      (call.clientIp = ip → (AuthManager.verify settings decode attempts call).granted = false) := by
  have hfresh : expired settings (getCurrentTimeSec call.seconds) entry = false := by
    rw [Bool.eq_false_iff, ne_eq, expired_iff hfirst hwrap]
    omega
  have hlive : live settings (getCurrentTimeSec call.seconds) (attempts ip) = some entry := by
    rw [hlocked.lookup]
    simp [live, Option.filter, hfresh]
  by_cases hip : call.clientIp = ip
  · subst hip
    have houtcome : attemptOn settings decode (some entry) call = ⟨some entry, false, []⟩ := by
      rw [attemptOn, if_pos (by simpa using hlocked.full)]
    refine ⟨⟨?_, hlocked.full⟩, fun _ ↦ ?_⟩
    · rw [verify_self, hlive, houtcome]
    · rw [verify_eq, hlive, houtcome]
  · exact ⟨⟨(verify_of_ne (Ne.symm hip)).trans hlive, hlocked.full⟩, fun heq ↦ absurd heq hip⟩

theorem LockedOut.after (hlocked : LockedOut settings attempts ip entry)
    (horder : InOrder seconds calls) (hfirst : entry.firstAttemptTime.toNat ≤ seconds)
    (hperiod : ∀ call ∈ calls,
      call.seconds ≤ entry.firstAttemptTime.toNat + settings.lockoutPeriodSec.toNat) :
    LockedOut settings (attemptsAfter settings decode attempts calls) ip entry := by
  induction calls generalizing attempts seconds with
  | nil => exact hlocked
  | cons call calls ih =>
    obtain ⟨hcall, hrest⟩ := forall_mem_cons.mp hperiod
    obtain ⟨hlater, hwrap⟩ := horder.head
    rw [attemptsAfter_cons]
    exact ih (hlocked.verify (hfirst.trans hlater) hcall hwrap).1 horder.tail (hfirst.trans hlater) hrest

def noAttempts : FailedAttempts := fun _ ↦ none

/-- After a call that uses the budget up, its address is refused for the period. -/
def LockoutsHold (settings : Settings) (decode : Bytes → Bytes) (calls : List Attempt) : Prop :=
  ∀ before call middle later rest, calls = before ++ call :: (middle ++ later :: rest) →
    Locks settings decode (attemptsAfter settings decode noAttempts before) call →
    later.clientIp = call.clientIp → later.seconds < call.seconds + settings.lockoutPeriodSec.toNat →
    (AuthManager.verify settings decode
      (attemptsAfter settings decode noAttempts (before ++ call :: middle)) later).granted = false

/-- A call is judged as if only its own address had called before. -/
def JudgedAlone (settings : Settings) (decode : Bytes → Bytes) (calls : List Attempt) : Prop :=
  ∀ before call rest, calls = before ++ call :: rest → (AuthManager.verify settings decode
      (attemptsAfter settings decode noAttempts before) call).granted =
    (AuthManager.verify settings decode
      (attemptsAfter settings decode noAttempts (callsFrom call.clientIp before)) call).granted

theorem dated_noAttempts (seconds : Nat) : Dated noAttempts seconds := by
  intro ip entry hentry
  cases hentry

theorem judgedAlone (horder : InOrder 0 calls) : JudgedAlone settings decode calls := by
  rintro before call rest rfl
  obtain ⟨hbefore, hsorted, hafter⟩ := horder.append
  have hlast : ∀ earlier ∈ before, earlier.seconds ≤ call.seconds :=
    fun earlier hearlier ↦ hsorted earlier hearlier call mem_cons_self
  have hsame : SameCounter settings call.clientIp 0 noAttempts noAttempts := fun _ _ _ ↦ rfl
  exact (verify_congr (sameCounter_after (dated_noAttempts 0) hbefore hlast (Nat.zero_le _) hsame)
    hafter.head.2).1

theorem lockoutsHold (horder : InOrder 0 calls)
    (hprompt : ∀ before call rest, calls = before ++ call :: rest →
      Prompt settings decode (attemptsAfter settings decode noAttempts before) call) :
    LockoutsHold settings decode calls := by
  rintro before call middle later rest rfl hlocks hip hperiod
  obtain ⟨hbefore, hsorted, hafter⟩ := horder.append
  obtain ⟨-, hwrap⟩ := hafter.head
  obtain ⟨hmiddle, hmiddleSorted, hlater⟩ := hafter.tail.append
  have hdated : Dated (attemptsAfter settings decode noAttempts before) call.seconds :=
    dated_after (dated_noAttempts 0) hbefore
      (fun earlier hearlier ↦ hsorted earlier hearlier call mem_cons_self) (Nat.zero_le _)
  obtain ⟨entry, hlocked, hfirst, hsecond⟩ :=
    lockedOut_of_locks hdated hwrap hlocks (hprompt before call _ rfl)
  -- the announced period ends at most a second after the real one
  have hinside : later.seconds ≤ entry.firstAttemptTime.toNat + settings.lockoutPeriodSec.toNat := by
    omega
  have hbetween : ∀ other ∈ middle,
      other.seconds ≤ entry.firstAttemptTime.toNat + settings.lockoutPeriodSec.toNat :=
    fun other hother ↦ (hmiddleSorted other hother later mem_cons_self).trans hinside
  have hstill : LockedOut settings (attemptsAfter settings decode
      (AuthManager.verify settings decode (attemptsAfter settings decode noAttempts before)
        call).attempts middle) call.clientIp entry :=
    hlocked.after hmiddle hfirst hbetween
  have hsplit : attemptsAfter settings decode noAttempts (before ++ call :: middle) =
      attemptsAfter settings decode (AuthManager.verify settings decode
        (attemptsAfter settings decode noAttempts before) call).attempts middle := by
    simp [attemptsAfter, foldl_append]
  rw [hsplit]
  exact (hstill.verify (hfirst.trans hlater.head.1) hinside hlater.head.2).2 hip

/-- Lockouts hold in every sequence of calls whose last failures come within a second of the first
ones, and no sequence mixes the addresses up. -/
theorem login_limited (settings : Settings) (decode : Bytes → Bytes) (calls : List Attempt)
    (horder : InOrder 0 calls) :
    JudgedAlone settings decode calls ∧ ((∀ before call rest, calls = before ++ call :: rest →
        Prompt settings decode (attemptsAfter settings decode noAttempts before) call) →
      LockoutsHold settings decode calls) :=
  ⟨judgedAlone horder, lockoutsHold horder⟩

def defaultSettings : Settings := ⟨ascii "admin", ascii "secret", 5, 300⟩

def decodeSample (text : Bytes) : Bytes :=
  if text = ascii "YWRtaW46c2VjcmV0" then ascii "admin:secret"
  else if text = ascii "YWRtaW46Z3Vlc3M=" then ascii "admin:guess"
  else []

def guessAt (seconds : Nat) : Attempt :=
  ⟨seconds, ascii "Basic YWRtaW46Z3Vlc3M=", ascii "192.168.1.5", true⟩

def loginAt (seconds : Nat) : Attempt :=
  ⟨seconds, ascii "Basic YWRtaW46c2VjcmV0", ascii "192.168.1.5", true⟩

/-- Five guesses within a second, then the right password while the lockout lasts. -/
theorem login_limited_sample :
    Locks defaultSettings decodeSample (attemptsAfter defaultSettings decodeSample noAttempts
      [guessAt 0, guessAt 0, guessAt 0, guessAt 1]) (guessAt 1) ∧
    LockoutsHold defaultSettings decodeSample
      [guessAt 0, guessAt 0, guessAt 0, guessAt 1, guessAt 1, loginAt 300] := by
  refine ⟨by unfold Locks; decide +kernel, ?_⟩
  have horder : InOrder 0 [guessAt 0, guessAt 0, guessAt 0, guessAt 1, guessAt 1, loginAt 300] :=
    ⟨by decide, by decide, by decide⟩
  apply (login_limited defaultSettings decodeSample _ horder).2
  intro before call rest hsplit _ hwrong entry _ _
  have hcall : call ∈ [guessAt 0, guessAt 0, guessAt 0, guessAt 1, guessAt 1, loginAt 300] :=
    hsplit ▸ mem_append_right before mem_cons_self
  have hquick : ∀ call ∈ [guessAt 0, guessAt 0, guessAt 0, guessAt 1, guessAt 1, loginAt 300],
      credentialsMatch defaultSettings decodeSample call.authHeader = false → call.seconds ≤ 1 := by
    decide +kernel
  have := hquick call hcall hwrong
  omega

/-- One guess and four more after 200 seconds: the lockout of 300 seconds ends after 101. -/
theorem lockout_ends_early :
    InOrder 0 [guessAt 0, guessAt 200, guessAt 200, guessAt 200, guessAt 200, loginAt 301] ∧
    ¬LockoutsHold defaultSettings decodeSample
      [guessAt 0, guessAt 200, guessAt 200, guessAt 200, guessAt 200, loginAt 301] := by
  refine ⟨⟨by decide, by decide, by decide⟩, ?_⟩
  intro hhold
  have hlocks : Locks defaultSettings decodeSample
      (attemptsAfter defaultSettings decodeSample noAttempts
        [guessAt 0, guessAt 200, guessAt 200, guessAt 200]) (guessAt 200) := by
    unfold Locks
    decide +kernel
  have hrefused := hhold [guessAt 0, guessAt 200, guessAt 200, guessAt 200] (guessAt 200) []
    (loginAt 301) [] rfl hlocks rfl (by decide)
  revert hrefused
  decide +kernel

end DhcpServer.Web.AuthManager
