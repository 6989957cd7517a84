import DhcpServer.Dhcp.Runs
import Mathlib.Data.Nat.Find

/-!
# The range and what the scan of `selectIp` makes of it

The scan goes up from the start of the range in the order of the addresses and stops where the word in
memory exceeds the word of the end. That is the end of the range only when start and end differ in the
last octet alone and the end is no broadcast address.
-/

/-!
## The end of a lease and the automatic cap

Both are computed in 32 bits. The end of a lease is a sum of seconds that is compared as it comes out;
the cap is twice the size of the pool, which is taken to be empty when its ends, as they stand in memory,
are the other way round.
-/

namespace DhcpServer.Dhcp

open Library

def kMinLeaseEntries : UInt32 := 8
def kMaxLeaseEntries : UInt32 := 512

structure LeaseLimitSettings where
  maxLeaseEntries : UInt32
  startIp : UInt32
  endIp : UInt32

def applyLeaseLimit (settings : LeaseLimitSettings) : UInt32 :=
  let limit :=
    if settings.maxLeaseEntries = 0 then
      let pool :=
        if settings.startIp < settings.endIp then
          byteSwap settings.endIp - byteSwap settings.startIp + 1
        else 0
      pool * 2
    else settings.maxLeaseEntries
  let limit := if limit < kMinLeaseEntries then kMinLeaseEntries else limit
  if kMaxLeaseEntries < limit then kMaxLeaseEntries else limit

/-- How many addresses there are from the start to the end of the range. -/
def poolSize (startIp endIp : UInt32) : Nat := (byteSwap endIp).toNat + 1 - (byteSwap startIp).toNat

/-- The automatic cap is twice the pool, within the bounds. -/
def CapIsTwicePool (startIp endIp : UInt32) : Prop :=
  (applyLeaseLimit ⟨0, startIp, endIp⟩).toNat =
    min kMaxLeaseEntries.toNat (max kMinLeaseEntries.toNat (2 * poolSize startIp endIp))

instance (startIp endIp : UInt32) : Decidable (CapIsTwicePool startIp endIp) :=
  inferInstanceAs (Decidable (_ = _))

/-- The ends stand in memory in their order and the doubled size of the pool is not cut to a small one,
or the pool is small anyway. -/
def PoolFits (startIp endIp : UInt32) : Prop :=
  if startIp < endIp then
    poolSize startIp endIp < 2 ^ 31 ∨
      2 ^ 31 + 256 ≤ poolSize startIp endIp ∧ poolSize startIp endIp < 2 ^ 32
  else poolSize startIp endIp ≤ 4

/-- From the time of the state on, the entry of the address outlasts the lease time. -/
def LeaseLasts (cfg : Config) (state : State) (ip : UInt32) : Prop :=
  ∃ lease, state.leases[ip]? = some lease ∧ ∀ clockUs, state.clockUs ≤ clockUs →
    clockUs / 1000000 < state.clockUs / 1000000 + cfg.leaseTimeSec.toNat →
    (removeExpiredLeases { state with clockUs }).leases[ip]? = some lease

/-- The end of the lease is no later than the counter of seconds can tell. -/
def LeaseFits (cfg : Config) (clockUs : Nat) : Prop :=
  cfg.leaseTimeSec = 0 ∨ currentTimeSec clockUs + cfg.leaseTimeSec.toNat < 2 ^ 32

theorem applyLeaseLimit_toNat (startIp endIp : UInt32) : (applyLeaseLimit ⟨0, startIp, endIp⟩).toNat =
      min 512 (max 8 (if startIp < endIp then
        ((byteSwap endIp - byteSwap startIp + 1) * 2).toNat else 0)) := by
  have hclamp (limit : UInt32) :
      (let bounded := if limit < kMinLeaseEntries then kMinLeaseEntries else limit
        if kMaxLeaseEntries < bounded then kMaxLeaseEntries else bounded).toNat =
        min 512 (max 8 limit.toNat) := by
    have hmin : kMinLeaseEntries.toNat = 8 := rfl
    have hmax : kMaxLeaseEntries.toNat = 512 := rfl
    simp only [UInt32.lt_iff_toNat_lt]
    split_ifs <;> omega
  rw [applyLeaseLimit, if_pos rfl, hclamp]
  split_ifs
  · rfl
  · rfl

theorem capIsTwicePool_iff {startIp endIp : UInt32} (hrange : byteSwap startIp ≤ byteSwap endIp) :
    CapIsTwicePool startIp endIp ↔ PoolFits startIp endIp := by
  have hle : (byteSwap startIp).toNat ≤ (byteSwap endIp).toNat := UInt32.le_iff_toNat_le.mp hrange
  have hend := (byteSwap endIp).toNat_lt
  have hdouble : ((byteSwap endIp - byteSwap startIp + 1) * 2).toNat =
      2 * poolSize startIp endIp % 2 ^ 32 := by
    rw [UInt32.toNat_mul, UInt32.toNat_add, UInt32.toNat_sub_of_le _ _ hrange, poolSize]
    simp only [UInt32.reduceToNat]
    omega
  have hmin : kMinLeaseEntries.toNat = 8 := rfl
  have hmax : kMaxLeaseEntries.toNat = 512 := rfl
  unfold CapIsTwicePool PoolFits
  rw [applyLeaseLimit_toNat, hmin, hmax]
  have hsize : poolSize startIp endIp ≤ 2 ^ 32 := by
    unfold poolSize
    omega
  split_ifs
  · rw [hdouble]
    omega
  · omega

/-- Within the lease the counter of seconds stays below the end of the lease, unless that is cut. -/
theorem currentTimeSec_lt_iff (cfg : Config) (fromUs : Nat) :
    (∀ clockUs, fromUs ≤ clockUs → clockUs / 1000000 < fromUs / 1000000 + cfg.leaseTimeSec.toNat →
      currentTimeSec clockUs < leaseExpiry cfg fromUs) ↔ LeaseFits cfg fromUs := by
  have hword := cfg.leaseTimeSec.toNat_lt
  unfold LeaseFits leaseExpiry currentTimeSec
  constructor
  · intro hlasts
    by_cases hzero : cfg.leaseTimeSec = 0
    · exact .inl hzero
    · right
      have hpos : cfg.leaseTimeSec.toNat ≠ 0 := fun hsame ↦ hzero (UInt32.toNat_inj.mp hsame)
      have hnow := hlasts fromUs le_rfl (by omega)
      omega
  · rintro (hzero | hfits) clockUs hle hearly
    · rw [hzero, UInt32.toNat_zero] at hearly
      omega
    · have hdiv : fromUs / 1000000 ≤ clockUs / 1000000 := Nat.div_le_div_right hle
      omega

theorem leaseLasts_iff {cfg : Config} {state : State} {ip : UInt32} {lease : DhcpLease}
    (hlease : state.leases[ip]? = some lease) (hexpiry : lease.expiry = leaseExpiry cfg state.clockUs) :
    LeaseLasts cfg state ip ↔ LeaseFits cfg state.clockUs := by
  have hkept (clockUs : Nat) : (removeExpiredLeases { state with clockUs }).leases[ip]? = some lease ↔
      currentTimeSec clockUs < leaseExpiry cfg state.clockUs := by
    rw [removeExpiredLeases_lookup, hlease, ← hexpiry]
    simp [Option.filter_some]
  rw [← currentTimeSec_lt_iff]
  constructor
  · rintro ⟨found, hfound, hlasts⟩ clockUs hle hearly
    obtain rfl := Option.some.inj (hfound.symm.trans hlease)
    exact (hkept clockUs).mp (hlasts clockUs hle hearly)
  · intro hlasts
    exact ⟨lease, hlease, fun clockUs hle hearly ↦ (hkept clockUs).mpr (hlasts clockUs hle hearly)⟩

variable {cfg : Config} {net : Net} {message : Message} {state state' : State} {replies : List Reply}

theorem exists_lease_of_ack (hhandle : handleRequest cfg net message state = (state', replies))
    (hack : ∃ reply ∈ replies, reply.msgType = kDhcpAck) :
    ∃ lease, state'.leases[assignedIp message]? = some lease ∧
      lease.expiry = leaseExpiry cfg state'.clockUs := by
  obtain ⟨-, ⟨hnak, -⟩ | ⟨purged, -, -, -, -, hlookup⟩⟩ := handleRequest_spec hhandle
  · obtain ⟨reply, hreply, htype⟩ := hack
    rw [hnak reply hreply] at htype
    exact absurd htype (by decide)
  · exact ⟨_, (hlookup _).trans (if_pos rfl), rfl⟩

/-- When an acknowledged lease lasts as long as it says and the automatic cap is twice the pool. -/
theorem lease_arithmetic_iff (hrange : byteSwap cfg.rangeStart ≤ byteSwap cfg.rangeEnd)
    (hhandle : handleRequest cfg net message state = (state', replies))
    (hack : ∃ reply ∈ replies, reply.msgType = kDhcpAck) :
    LeaseLasts cfg state' (assignedIp message) ∧ CapIsTwicePool cfg.rangeStart cfg.rangeEnd ↔
      LeaseFits cfg state'.clockUs ∧ PoolFits cfg.rangeStart cfg.rangeEnd := by
  obtain ⟨lease, hlease, hexpiry⟩ := exists_lease_of_ack hhandle hack
  rw [leaseLasts_iff hlease hexpiry, capIsTwicePool_iff hrange]

def askingForPool (mac : Mac) (host : UInt8) : Message where
  msgType := kDhcpRequest
  chaddr := mac
  xid := 1
  ciaddr := 0
  giaddr := 0
  requestedIp := dotted 192 168 1 host
  serverId := 0
  clientName := []

theorem exists_ack_of_any (hany : replies.any (fun reply ↦ reply.msgType == kDhcpAck)) :
    ∃ reply ∈ replies, reply.msgType = kDhcpAck := by
  simpa using hany

/-- A day's lease and a pool within one /24. -/
theorem lease_arithmetic_at_home : ∃ (state' : State) (ip : UInt32),
    LeaseLasts homeConfig state' ip ∧ CapIsTwicePool homeConfig.rangeStart homeConfig.rangeEnd := by
  let outcome := handleRequest homeConfig silentNet (askingForPool macA 100) (.start 0)
  have hhandle : handleRequest homeConfig silentNet (askingForPool macA 100) (.start 0) =
      (outcome.1, outcome.2) := rfl
  have hack : ∃ reply ∈ outcome.2, reply.msgType = kDhcpAck := exists_ack_of_any (by decide +kernel)
  have hfits : LeaseFits homeConfig outcome.1.clockUs := .inr (by decide +kernel)
  have hpool : PoolFits homeConfig.rangeStart homeConfig.rangeEnd := by
    rw [PoolFits, if_pos (by decide +kernel)]
    decide +kernel
  exact ⟨_, _, (lease_arithmetic_iff (by decide +kernel) hhandle hack).mpr ⟨hfits, hpool⟩⟩

/-- A lease of 4294967295 seconds, which the settings take as -1, is over when it is given, and the cap
of a range of 256 addresses in two blocks is the least one. -/
theorem lease_arithmetic_fails :
    (¬ ∀ (cfg : Config) (net : Net) (message : Message) (state state' : State) (replies : List Reply),
      handleRequest cfg net message state = (state', replies) →
      (∃ reply ∈ replies, reply.msgType = kDhcpAck) → LeaseLasts cfg state' (assignedIp message)) ∧
    ¬ ∀ startIp endIp : UInt32, byteSwap startIp ≤ byteSwap endIp → CapIsTwicePool startIp endIp := by
  constructor
  · intro hclaim
    let cfg : Config := { homeConfig with leaseTimeSec := 0xFFFFFFFF }
    let outcome := handleRequest cfg silentNet (askingForPool macA 100) (.start 1000000)
    have hhandle : handleRequest cfg silentNet (askingForPool macA 100) (.start 1000000) =
        (outcome.1, outcome.2) := rfl
    have hack : ∃ reply ∈ outcome.2, reply.msgType = kDhcpAck := exists_ack_of_any (by decide +kernel)
    obtain ⟨lease, hlease, hexpiry⟩ := exists_lease_of_ack hhandle hack
    rcases (leaseLasts_iff hlease hexpiry).mp (hclaim _ _ _ _ _ _ hhandle hack) with hzero | hsum
    · exact absurd hzero (by decide)
    · revert hsum
      decide +kernel
  · intro hclaim
    have hcap := hclaim (dotted 192 168 0 1) (dotted 192 168 1 0) (by decide +kernel)
    revert hcap
    decide +kernel

end DhcpServer.Dhcp

namespace DhcpServer.Dhcp

open Library

/-! ## The addresses in their order -/

/-- The address so many places above the start of the range. -/
def addressAt (cfg : Config) (place : Nat) : UInt32 :=
  byteSwap (byteSwap cfg.rangeStart + UInt32.ofNat place)

def Unclaimed (cfg : Config) (state : State) (ip : UInt32) (clockUs : Nat) : Prop :=
  ip ≠ cfg.serverIp ∧ ip ∉ state.leases ∧ addressDeclined state ip clockUs = false

instance (cfg : Config) (state : State) (ip : UInt32) (clockUs : Nat) :
    Decidable (Unclaimed cfg state ip clockUs) :=
  inferInstanceAs (Decidable (_ ∧ _ ∧ _))

/-- When the address is looked at, if the ones below it are looked at one after the other. -/
def reachedAt (cfg : Config) (net : Net) (state : State) (clockUs : Nat) : Nat → Nat
  | 0 => clockUs
  | place + 1 =>
    let reached := reachedAt cfg net state clockUs place
    if Unclaimed cfg state (addressAt cfg place) reached then
      (probeIp net (addressAt cfg place) reached).clockUs
    else reached

/-- Neither the server's own, nor leased, nor refused, nor answering when it is looked at. -/
def FreeAt (cfg : Config) (net : Net) (state : State) (clockUs place : Nat) : Prop :=
  let reached := reachedAt cfg net state clockUs place
  Unclaimed cfg state (addressAt cfg place) reached ∧
    (probeIp net (addressAt cfg place) reached).inUse = false

instance (cfg : Config) (net : Net) (state : State) (clockUs place : Nat) :
    Decidable (FreeAt cfg net state clockUs place) :=
  inferInstanceAs (Decidable (_ ∧ _))

def FirstFree (cfg : Config) (net : Net) (state : State) (clockUs : Nat) (ip : UInt32) : Prop :=
  ∃ place < poolSize cfg.rangeStart cfg.rangeEnd, ip = addressAt cfg place ∧
    FreeAt cfg net state clockUs place ∧ ∀ below < place, ¬FreeAt cfg net state clockUs below

/-- The call comes back with the smallest free address of the range, or with 0 when there is none. -/
def ScansRange (cfg : Config) (net : Net) (mac : Mac) (state : State) (clockUs : Nat) : Prop :=
  ∃ fuel ip after, selectIp fuel cfg net mac state clockUs = some (ip, after) ∧
    (∀ free, FirstFree cfg net state clockUs free → ip = free) ∧
    (ip = 0 ↔ ¬∃ free, FirstFree cfg net state clockUs free) ∧
    (ip ≠ 0 → isIpInRange cfg ip = true)

/-- Going up from the start over addresses that are not free, with words up to the one of the end, one
comes to a free one, which is 0.0.0.0 if and only if it is above the range, or to a larger word when
nothing in the range is free. -/
def ScanMeetsRange (cfg : Config) (net : Net) (state : State) (clockUs : Nat) : Prop :=
  ∃ place, (∀ below < place, addressAt cfg below ≤ cfg.rangeEnd ∧ ¬FreeAt cfg net state clockUs below) ∧
    (addressAt cfg place ≤ cfg.rangeEnd ∧ FreeAt cfg net state clockUs place ∧
        (place < poolSize cfg.rangeStart cfg.rangeEnd ↔ addressAt cfg place ≠ 0) ∨
      cfg.rangeEnd < addressAt cfg place ∧
        ∀ inside < poolSize cfg.rangeStart cfg.rangeEnd, ¬FreeAt cfg net state clockUs inside)

/-- The ends of the range differ in the last octet only, the end is not .255, the start not 0.0.0.0. -/
def OneBlock (startIp endIp : UInt32) : Prop :=
  (byteSwap startIp).toNat / 256 = (byteSwap endIp).toNat / 256 ∧
    (byteSwap endIp).toNat % 256 ≠ 255 ∧ startIp ≠ 0

variable {cfg : Config} {net : Net} {mac : Mac} {state : State} {clockUs place : Nat} {ip : UInt32}

theorem addressAt_zero (cfg : Config) : addressAt cfg 0 = cfg.rangeStart := by
  have hzero : byteSwap cfg.rangeStart + UInt32.ofNat 0 = byteSwap cfg.rangeStart := UInt32.add_zero _
  rw [addressAt, hzero, byteSwap_byteSwap]

theorem nextIp_addressAt (cfg : Config) (place : Nat) :
    nextIp (addressAt cfg place) = addressAt cfg (place + 1) := by
  rw [nextIp, addressAt, byteSwap_byteSwap, addressAt, UInt32.ofNat_add, UInt32.add_assoc]
  rfl

theorem toNat_addressAt (cfg : Config) (hword : (byteSwap cfg.rangeStart).toNat + place < 2 ^ 32) :
    (byteSwap (addressAt cfg place)).toNat = (byteSwap cfg.rangeStart).toNat + place := by
  rw [addressAt, byteSwap_byteSwap, UInt32.toNat_add, UInt32.toNat_ofNat']
  omega

theorem toNat_addressAt_of_lt (cfg : Config) (hplace : place < poolSize cfg.rangeStart cfg.rangeEnd) :
    (byteSwap (addressAt cfg place)).toNat = (byteSwap cfg.rangeStart).toNat + place := by
  have hend := (byteSwap cfg.rangeEnd).toNat_lt
  unfold poolSize at hplace
  exact toNat_addressAt cfg (by omega)

theorem isIpInRange_addressAt (hplace : place < poolSize cfg.rangeStart cfg.rangeEnd)
    (hserver : addressAt cfg place ≠ cfg.serverIp) : isIpInRange cfg (addressAt cfg place) := by
  have haddress := toNat_addressAt_of_lt cfg hplace
  unfold poolSize at hplace
  rw [isIpInRange, if_neg hserver]
  simp only [Bool.and_eq_true, decide_eq_true_eq, UInt32.le_iff_toNat_le]
  omega

def StopsAt (cfg : Config) (net : Net) (state : State) (clockUs place : Nat) (ip : UInt32) : Prop :=
  (∀ below < place, addressAt cfg below ≤ cfg.rangeEnd ∧ ¬FreeAt cfg net state clockUs below) ∧
    (addressAt cfg place ≤ cfg.rangeEnd ∧ FreeAt cfg net state clockUs place ∧ ip = addressAt cfg place ∨
      cfg.rangeEnd < addressAt cfg place ∧ ip = 0)

theorem scanRange_place (fuel : Nat) :
    scanRange cfg net state (fuel + 1) (addressAt cfg place) (reachedAt cfg net state clockUs place) =
      if addressAt cfg place ≤ cfg.rangeEnd then
        if FreeAt cfg net state clockUs place then
          some (addressAt cfg place, reachedAt cfg net state clockUs (place + 1))
        else scanRange cfg net state fuel (addressAt cfg (place + 1))
          (reachedAt cfg net state clockUs (place + 1))
      else some (0, reachedAt cfg net state clockUs place) := by
  rw [scanRange, reachedAt, nextIp_addressAt]
  unfold FreeAt Unclaimed
  split_ifs <;> simp_all

theorem stopsAt_of_scanRange {fuel : Nat} {after : Nat}
    (hpassed : ∀ below < place, addressAt cfg below ≤ cfg.rangeEnd ∧ ¬FreeAt cfg net state clockUs below)
    (hscan : scanRange cfg net state fuel (addressAt cfg place) (reachedAt cfg net state clockUs place) =
      some (ip, after)) : ∃ last, StopsAt cfg net state clockUs last ip := by
  induction fuel generalizing place with
  | zero => cases hscan
  | succ fuel ih =>
    rw [scanRange_place] at hscan
    split_ifs at hscan with hend hfree
    · cases hscan
      exact ⟨place, hpassed, .inl ⟨hend, hfree, rfl⟩⟩
    · refine ih (fun below hbelow ↦ ?_) hscan
      rcases Nat.lt_succ_iff_lt_or_eq.mp hbelow with hless | rfl
      · exact hpassed below hless
      · exact ⟨hend, hfree⟩
    · cases hscan
      exact ⟨place, hpassed, .inr ⟨UInt32.not_le.mp hend, rfl⟩⟩

theorem scanRange_of_stopsAt {last : Nat} (hstops : StopsAt cfg net state clockUs last ip)
    (hplace : place ≤ last) :
    ∃ fuel after, scanRange cfg net state fuel (addressAt cfg place)
      (reachedAt cfg net state clockUs place) = some (ip, after) := by
  obtain ⟨hpassed, hlast⟩ := hstops
  induction hplace using Nat.decreasingInduction with
  | self =>
    refine ⟨1, ?_⟩
    rw [scanRange_place]
    rcases hlast with ⟨hend, hfree, rfl⟩ | ⟨hend, rfl⟩
    · rw [if_pos hend, if_pos hfree]
      exact ⟨_, rfl⟩
    · rw [if_neg (UInt32.not_le.mpr hend)]
      exact ⟨_, rfl⟩
  | of_succ below hbelow ih =>
    obtain ⟨fuel, after, hscan⟩ := ih
    obtain ⟨hend, hfree⟩ := hpassed below hbelow
    refine ⟨fuel + 1, after, ?_⟩
    rw [scanRange_place, if_pos hend, if_neg hfree]
    exact hscan

/-- Where the first two steps do not apply, the outcome is that of the first address that is not passed
by. -/
theorem selectIp_iff (hbinding : freeBinding cfg state mac = none) (hown : ownEntry state mac = none) :
    (∃ fuel after, selectIp fuel cfg net mac state clockUs = some (ip, after)) ↔
      ∃ last, StopsAt cfg net state clockUs last ip := by
  have hselect (fuel : Nat) : selectIp fuel cfg net mac state clockUs =
      scanRange cfg net state fuel (addressAt cfg 0) (reachedAt cfg net state clockUs 0) := by
    unfold selectIp
    rw [hbinding, hown, addressAt_zero, reachedAt]
  constructor
  · rintro ⟨fuel, after, hscan⟩
    have hpassed : ∀ below < 0, addressAt cfg below ≤ cfg.rangeEnd ∧
        ¬FreeAt cfg net state clockUs below := fun _ hbelow ↦ absurd hbelow (Nat.not_lt_zero _)
    exact stopsAt_of_scanRange hpassed ((hselect fuel).symm.trans hscan)
  · rintro ⟨last, hstops⟩
    obtain ⟨fuel, after, hscan⟩ := scanRange_of_stopsAt hstops (Nat.zero_le last)
    exact ⟨fuel, after, (hselect fuel).trans hscan⟩

theorem exists_firstFree_iff : (∃ free, FirstFree cfg net state clockUs free) ↔
    ∃ place < poolSize cfg.rangeStart cfg.rangeEnd, FreeAt cfg net state clockUs place := by
  constructor
  · rintro ⟨free, place, hplace, -, hfree, -⟩
    exact ⟨place, hplace, hfree⟩
  · intro hexists
    obtain ⟨hplace, hfree⟩ := Nat.find_spec hexists
    refine ⟨_, Nat.find hexists, hplace, rfl, hfree, fun below hbelow hfreeBelow ↦ ?_⟩
    exact Nat.find_min hexists hbelow ⟨hbelow.trans hplace, hfreeBelow⟩

theorem scansRange_iff (hbinding : freeBinding cfg state mac = none) (hown : ownEntry state mac = none) :
    ScansRange cfg net mac state clockUs ↔ ScanMeetsRange cfg net state clockUs := by
  constructor
  · rintro ⟨fuel, ip, after, hselect, hleast, hnone, -⟩
    obtain ⟨last, hpassed, ⟨hend, hfree, rfl⟩ | ⟨hend, rfl⟩⟩ :=
      (selectIp_iff hbinding hown).mp ⟨fuel, after, hselect⟩
    · refine ⟨last, hpassed, .inl ⟨hend, hfree, ?_⟩⟩
      rw [ne_eq, hnone, not_not, exists_firstFree_iff]
      constructor
      · intro hplace
        exact ⟨last, hplace, hfree⟩
      · rintro ⟨place, hplace, hfreePlace⟩
        by_contra habove
        exact (hpassed place (by omega)).2 hfreePlace
    · refine ⟨last, hpassed, .inr ⟨hend, fun inside hinside hfree ↦ ?_⟩⟩
      exact hnone.mp rfl (exists_firstFree_iff.mpr ⟨inside, hinside, hfree⟩)
  · rintro ⟨last, hpassed, ⟨hend, hfree, hzero⟩ | ⟨hend, hnothing⟩⟩
    · obtain ⟨fuel, after, hselect⟩ :=
        (selectIp_iff hbinding hown).mpr ⟨last, hpassed, .inl ⟨hend, hfree, rfl⟩⟩
      refine ⟨fuel, _, after, hselect, ?_, ?_, ?_⟩
      · rintro _ ⟨place, hplace, rfl, hfreePlace, hbelow⟩
        rcases Nat.lt_trichotomy place last with hless | rfl | hmore
        · exact absurd hfreePlace (hpassed place hless).2
        · rfl
        · exact absurd hfree (hbelow last hmore)
      · rw [exists_firstFree_iff, ← not_iff_not, not_not, ← ne_eq, ← hzero]
        constructor
        · intro hplace
          exact ⟨last, hplace, hfree⟩
        · rintro ⟨place, hplace, hfreePlace⟩
          by_contra habove
          exact (hpassed place (by omega)).2 hfreePlace
      · intro hne
        exact isIpInRange_addressAt (hzero.mpr hne) hfree.1.1
    · obtain ⟨fuel, after, hselect⟩ := (selectIp_iff hbinding hown).mpr ⟨last, hpassed, .inr ⟨hend, rfl⟩⟩
      have hempty : ¬∃ free, FirstFree cfg net state clockUs free := by
        rw [exists_firstFree_iff]
        rintro ⟨place, hplace, hfree⟩
        exact hnothing place hplace hfree
      exact ⟨fuel, 0, after, hselect, fun free hfree ↦ absurd ⟨free, hfree⟩ hempty,
        iff_of_true rfl hempty, fun hne ↦ absurd rfl hne⟩

theorem toNat_eq_network (word : UInt32) : let network := (byteSwap word).toNat / 256
    word.toNat = network / 65536 + network / 256 % 256 * 256 + network % 256 * 65536 +
      (byteSwap word).toNat % 256 * 16777216 := by
  obtain ⟨first, second, third, fourth, h1, h2, h3, h4, hword, hswapped⟩ := exists_octets word
  have hnetwork : (byteSwap word).toNat / 256 = third + second * 256 + first * 65536 := by omega
  have hlast : (byteSwap word).toNat % 256 = fourth := by omega
  have hfirst : (third + second * 256 + first * 65536) / 65536 = first := by omega
  have hsecond : (third + second * 256 + first * 65536) / 256 % 256 = second := by omega
  have hthird : (third + second * 256 + first * 65536) % 256 = third := by omega
  dsimp only
  rw [hnetwork, hlast, hfirst, hsecond, hthird, hword]

theorem le_iff_of_network {left right : UInt32}
    (hnetwork : (byteSwap left).toNat / 256 = (byteSwap right).toNat / 256) :
    left ≤ right ↔ (byteSwap left).toNat ≤ (byteSwap right).toNat := by
  have hleft := toNat_eq_network left
  have hright := toNat_eq_network right
  rw [hnetwork] at hleft
  rw [UInt32.le_iff_toNat_le]
  omega

section

variable (hblock : OneBlock cfg.rangeStart cfg.rangeEnd)
include hblock

theorem OneBlock.le
    (hplace : place < poolSize cfg.rangeStart cfg.rangeEnd) : addressAt cfg place ≤ cfg.rangeEnd := by
  have haddress := toNat_addressAt_of_lt cfg hplace
  obtain ⟨hsame, -, -⟩ := hblock
  unfold poolSize at hplace
  have hnetwork : (byteSwap (addressAt cfg place)).toNat / 256 = (byteSwap cfg.rangeEnd).toNat / 256 := by
    omega
  rw [le_iff_of_network hnetwork]
  omega

theorem OneBlock.lt (hrange : byteSwap cfg.rangeStart ≤ byteSwap cfg.rangeEnd) :
    cfg.rangeEnd < addressAt cfg (poolSize cfg.rangeStart cfg.rangeEnd) := by
  have hle := UInt32.le_iff_toNat_le.mp hrange
  have hend := (byteSwap cfg.rangeEnd).toNat_lt
  obtain ⟨-, hlast, -⟩ := hblock
  have hword : (byteSwap cfg.rangeStart).toNat + poolSize cfg.rangeStart cfg.rangeEnd < 2 ^ 32 := by
    unfold poolSize
    omega
  have haddress := toNat_addressAt cfg hword
  have hhost : (byteSwap (addressAt cfg (poolSize cfg.rangeStart cfg.rangeEnd))).toNat =
      (byteSwap cfg.rangeEnd).toNat + 1 := by
    rw [haddress, poolSize]
    omega
  have hnetwork : (byteSwap (addressAt cfg (poolSize cfg.rangeStart cfg.rangeEnd))).toNat / 256 =
      (byteSwap cfg.rangeEnd).toNat / 256 := by omega
  rw [← UInt32.not_le, le_iff_of_network hnetwork]
  omega

theorem OneBlock.addressAt_ne_zero
    (hplace : place < poolSize cfg.rangeStart cfg.rangeEnd) : addressAt cfg place ≠ 0 := by
  have haddress := toNat_addressAt_of_lt cfg hplace
  obtain ⟨-, -, hstart⟩ := hblock
  intro hzero
  rw [hzero, byteSwap_eq_zero_iff.mpr rfl, UInt32.toNat_zero] at haddress
  have hnone : byteSwap cfg.rangeStart = 0 := by
    apply UInt32.toNat_inj.mp
    rw [UInt32.toNat_zero]
    omega
  exact hstart (byteSwap_eq_zero_iff.mp hnone)

theorem OneBlock.scanMeetsRange (hrange : byteSwap cfg.rangeStart ≤ byteSwap cfg.rangeEnd) :
    ScanMeetsRange cfg net state clockUs := by
  by_cases hexists : ∃ place < poolSize cfg.rangeStart cfg.rangeEnd, FreeAt cfg net state clockUs place
  · obtain ⟨hplace, hfree⟩ := Nat.find_spec hexists
    refine ⟨Nat.find hexists, fun below hbelow ↦ ⟨hblock.le (hbelow.trans hplace), fun hfreeBelow ↦ ?_⟩,
      .inl ⟨hblock.le hplace, hfree, iff_of_true hplace (hblock.addressAt_ne_zero hplace)⟩⟩
    exact Nat.find_min hexists hbelow ⟨hbelow.trans hplace, hfreeBelow⟩
  · have hnothing : ∀ place < poolSize cfg.rangeStart cfg.rangeEnd, ¬FreeAt cfg net state clockUs place :=
      fun place hplace hfree ↦ hexists ⟨place, hplace, hfree⟩
    exact ⟨_, fun below hbelow ↦ ⟨hblock.le hbelow, hnothing below hbelow⟩,
      .inr ⟨hblock.lt hrange, hnothing⟩⟩

end

/-! ## The other ranges -/

def noisyNet (quiet : Option UInt32) : Net where
  arp := fun _ ip ↦ (if quiet = some ip then none else some zeroMac, 0)
  icmp := fun _ _ ↦ (false, 0)

/-- A server with this range and an address of its own that is not the quiet one. -/
def rangeConfig (startIp endIp : UInt32) (quiet : Option UInt32) : Config :=
  { homeConfig with rangeStart := startIp, rangeEnd := endIp, serverIp := quiet.elim 0 (· + 1) }

theorem addressDeclined_start (ip : UInt32) (clockUs : Nat) :
    addressDeclined (.start 0) ip clockUs = false := by
  unfold addressDeclined DeclinedAddresses.isDeclined
  have hnone : (State.start 0).declined.entries.find? (fun entry ↦ entry.used && entry.ip == ip) = none :=
    List.find?_eq_none.mpr fun entry hentry ↦ by
      rw [List.eq_of_mem_replicate hentry]
      simp
  rw [hnone]

theorem freeAt_noisyNet {startIp endIp : UInt32} {quiet : Option UInt32} :
    FreeAt (rangeConfig startIp endIp quiet) (noisyNet quiet) (.start 0) 0 place ↔
      quiet = some (addressAt (rangeConfig startIp endIp none) place) := by
  have hprobe (ip : UInt32) (clockUs : Nat) :
      (probeIp (noisyNet quiet) ip clockUs).inUse = false ↔ quiet = some ip := by
    by_cases hquiet : quiet = some ip <;> simp [probeIp, noisyNet, hquiet]
  have haddress : addressAt (rangeConfig startIp endIp quiet) place =
      addressAt (rangeConfig startIp endIp none) place := rfl
  unfold FreeAt Unclaimed
  dsimp only
  rw [hprobe, haddress, addressDeclined_start]
  constructor
  · rintro ⟨-, hquiet⟩
    exact hquiet
  · intro hquiet
    refine ⟨⟨?_, Std.TreeMap.not_mem_emptyc, rfl⟩, hquiet⟩
    rw [hquiet]
    intro hsame
    have hone : (addressAt (rangeConfig startIp endIp none) place) + 0 =
        (addressAt (rangeConfig startIp endIp none) place) + 1 := (UInt32.add_zero _).trans hsame
    exact absurd (UInt32.add_right_inj _ |>.mp hone) (by decide)

/-- The claim for a range: it holds whatever the table, the network, the time and the rest of the settings
are. -/
def AlwaysScansRange (startIp endIp : UInt32) : Prop :=
  ∀ (cfg : Config) (net : Net) (mac : Mac) (state : State) (clockUs : Nat), cfg.rangeStart = startIp →
    cfg.rangeEnd = endIp → freeBinding cfg state mac = none → ownEntry state mac = none →
    ScansRange cfg net mac state clockUs

section Always

variable {startIp endIp : UInt32}

section

variable (halways : AlwaysScansRange startIp endIp)
include halways

theorem AlwaysScansRange.meets (quiet : Option UInt32) :
    let address := addressAt (rangeConfig startIp endIp none)
    ∃ place, (∀ below < place, address below ≤ endIp ∧ quiet ≠ some (address below)) ∧
      (address place ≤ endIp ∧ quiet = some (address place) ∧
          (place < poolSize startIp endIp ↔ address place ≠ 0) ∨
        endIp < address place ∧ ∀ inside < poolSize startIp endIp, quiet ≠ some (address inside)) := by
  have hscans := halways (rangeConfig startIp endIp quiet) (noisyNet quiet) macA (.start 0) 0 rfl rfl rfl
    rfl
  have hmeets := (scansRange_iff rfl rfl).mp hscans
  unfold ScanMeetsRange at hmeets
  simp only [freeAt_noisyNet] at hmeets
  exact hmeets

theorem AlwaysScansRange.le
    (hplace : place < poolSize startIp endIp) : addressAt (rangeConfig startIp endIp none) place ≤ endIp := by
  obtain ⟨last, -, ⟨hend, hquiet, -⟩ | ⟨-, hnothing⟩⟩ :=
    halways.meets (some (addressAt (rangeConfig startIp endIp none) place))
  · rw [Option.some.inj hquiet]
    exact hend
  · exact absurd rfl (hnothing place hplace)

theorem AlwaysScansRange.start_ne_zero (hpool : 0 < poolSize startIp endIp) : startIp ≠ 0 := by
  intro hzero
  have hfirst : addressAt (rangeConfig startIp endIp none) 0 = 0 := (addressAt_zero _).trans hzero
  obtain ⟨last, hpassed, ⟨-, hquiet, hiff⟩ | ⟨-, hnothing⟩⟩ := halways.meets (some 0)
  · have hinside : last < poolSize startIp endIp := by
      by_contra habove
      exact (hpassed 0 (by omega)).2 (congrArg some hfirst.symm)
    exact hiff.mp hinside (Option.some.inj hquiet).symm
  · exact hnothing 0 hpool (congrArg some hfirst.symm)

theorem AlwaysScansRange.lt (hrange : byteSwap startIp ≤ byteSwap endIp) :
    endIp < addressAt (rangeConfig startIp endIp none) (poolSize startIp endIp) := by
  have hle := UInt32.le_iff_toNat_le.mp hrange
  by_contra hnot
  have hmore := UInt32.not_lt.mp hnot
  -- with no quiet address at all, the scan leaves somewhere
  obtain ⟨left, -, ⟨-, hquiet, -⟩ | ⟨hleft, -⟩⟩ := halways.meets none
  · cases hquiet
  have hlast : (byteSwap endIp).toNat + 1 < 2 ^ 32 := by
    obtain ⟨a, b, c, d, ha, hb, hc, hd, hword, hswapped⟩ := exists_octets endIp
    have hlarger := UInt32.lt_iff_toNat_lt.mp hleft
    have hbound := (addressAt (rangeConfig startIp endIp none) left).toNat_lt
    omega
  have haddress : (byteSwap (addressAt (rangeConfig startIp endIp none) (poolSize startIp endIp))).toNat =
      (byteSwap endIp).toNat + 1 := by
    have hword : (byteSwap startIp).toNat + poolSize startIp endIp < 2 ^ 32 := by
      unfold poolSize
      omega
    refine (toNat_addressAt (rangeConfig startIp endIp none) hword).trans ?_
    change (byteSwap startIp).toNat + poolSize startIp endIp = _
    unfold poolSize
    omega
  -- with the address above the range quiet, the scan returns it
  obtain ⟨last, hpassed, ⟨-, hquiet, hiff⟩ | ⟨hend, -⟩⟩ :=
    halways.meets (some (addressAt (rangeConfig startIp endIp none) (poolSize startIp endIp)))
  · have hsame := Option.some.inj hquiet
    have hinside : last < poolSize startIp endIp := by
      refine hiff.mpr fun hzero ↦ ?_
      rw [hsame, hzero, byteSwap_eq_zero_iff.mpr rfl, UInt32.toNat_zero] at haddress
      omega
    have hlower := toNat_addressAt_of_lt (rangeConfig startIp endIp none) hinside
    rw [← hsame, haddress] at hlower
    change _ = (byteSwap startIp).toNat + last at hlower
    unfold poolSize at hinside
    omega
  · rcases Nat.lt_trichotomy last (poolSize startIp endIp) with hless | rfl | hgreater
    · exact absurd hend (UInt32.not_lt.mpr (halways.le hless))
    · exact hnot hend
    · exact (hpassed _ hgreater).2 rfl

theorem AlwaysScansRange.oneBlock (hrange : byteSwap startIp ≤ byteSwap endIp) : OneBlock startIp endIp := by
  have hle := UInt32.le_iff_toNat_le.mp hrange
  have hbound := (byteSwap endIp).toNat_lt
  have hpool : 0 < poolSize startIp endIp := by
    unfold poolSize
    omega
  have hend := toNat_eq_network endIp
  have hlast : (byteSwap endIp).toNat % 256 ≠ 255 := by
    intro hbroadcast
    have hlarger := UInt32.lt_iff_toNat_lt.mp (halways.lt hrange)
    have habove := toNat_eq_network (addressAt (rangeConfig startIp endIp none) (poolSize startIp endIp))
    have hhost : (byteSwap (addressAt (rangeConfig startIp endIp none) (poolSize startIp endIp))).toNat =
        ((byteSwap endIp).toNat + 1) % 2 ^ 32 := by
      rw [addressAt, byteSwap_byteSwap, UInt32.toNat_add, UInt32.toNat_ofNat']
      change ((byteSwap startIp).toNat + poolSize startIp endIp % 2 ^ 32) % 2 ^ 32 = _
      unfold poolSize
      omega
    rw [hhost] at habove
    omega
  refine ⟨?_, hlast, halways.start_ne_zero hpool⟩
  by_contra hcrosses
  -- the last address of the block below the one of the end
  let place := (byteSwap endIp).toNat / 256 * 256 - 1 - (byteSwap startIp).toNat
  have hplace : place < poolSize startIp endIp := by
    unfold place poolSize
    omega
  have hsmaller := UInt32.le_iff_toNat_le.mp (halways.le hplace)
  have hhost := toNat_addressAt_of_lt (rangeConfig startIp endIp none) hplace
  have hbelow : (byteSwap (addressAt (rangeConfig startIp endIp none) place)).toNat =
      (byteSwap endIp).toNat / 256 * 256 - 1 := by
    refine hhost.trans ?_
    change (byteSwap startIp).toNat + place = _
    omega
  have hword := toNat_eq_network (addressAt (rangeConfig startIp endIp none) place)
  rw [hbelow] at hword
  omega

end

end Always

/-- The scan against the range: for every table, network and time, and for every range. -/
theorem selectIp_scans_range_iff {startIp endIp : UInt32} (hrange : byteSwap startIp ≤ byteSwap endIp) :
    (∀ (cfg : Config) (net : Net) (mac : Mac) (state : State) (clockUs : Nat), cfg.rangeStart = startIp →
        cfg.rangeEnd = endIp → freeBinding cfg state mac = none → ownEntry state mac = none →
        (ScansRange cfg net mac state clockUs ↔ ScanMeetsRange cfg net state clockUs)) ∧
      (AlwaysScansRange startIp endIp ↔ OneBlock startIp endIp) := by
  refine ⟨fun cfg net mac state clockUs _ _ hbinding hown ↦ scansRange_iff hbinding hown,
    fun halways ↦ halways.oneBlock hrange, ?_⟩
  rintro hblock cfg net mac state clockUs rfl rfl hbinding hown
  exact (scansRange_iff hbinding hown).mpr (hblock.scanMeetsRange hrange)

theorem home_range_is_scanned : AlwaysScansRange homeConfig.rangeStart homeConfig.rangeEnd :=
  (selectIp_scans_range_iff (by decide +kernel)).2.mpr
    ⟨by decide +kernel, by decide +kernel, by decide +kernel⟩

def crossingConfig : Config :=
  { homeConfig with rangeStart := dotted 192 168 0 200, rangeEnd := dotted 192 168 1 100 }

/-- Its first address is free, and the server finds no address. -/
theorem crossing_range_is_not_scanned :
    byteSwap crossingConfig.rangeStart ≤ byteSwap crossingConfig.rangeEnd ∧
      FirstFree crossingConfig silentNet (.start 0) 0 (dotted 192 168 0 200) ∧
      selectIp 1 crossingConfig silentNet macA (.start 0) 0 = some (0, 0) ∧
      ¬AlwaysScansRange crossingConfig.rangeStart crossingConfig.rangeEnd := by
  have hrange : byteSwap crossingConfig.rangeStart ≤ byteSwap crossingConfig.rangeEnd := by decide +kernel
  refine ⟨hrange, ⟨0, ?_, ?_, ?_, fun below hbelow ↦ absurd hbelow (Nat.not_lt_zero _)⟩, ?_, fun halways ↦ ?_⟩
  · decide +kernel
  · exact (addressAt_zero crossingConfig).symm
  · decide +kernel
  · decide +kernel
  · have hsame := (halways.oneBlock hrange).1
    revert hsame
    decide +kernel

end DhcpServer.Dhcp
