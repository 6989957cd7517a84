import DhcpServer.Dns.InternalCache
import DhcpServer.Library.Run

/-!
# The published statistics

The count of hits and the sums of their times are kept twice, by the server and by the built-in cache. A new
arena starts the counters of the cache over, and only these.
-/

namespace DhcpServer.Dns.PublishedStats

open Library
open InternalCache (kMinCacheSizeMb kMaxCacheSizeMb)

def DNS_COUNTER_MAX : Nat := 0xFFFFFFFF

structure DnsStatTotals where
  hits : Nat := 0
  forwards : Nat := 0
  hitUsSum : Nat := 0
  waitUs : Nat := 0

/-- The counters of the server and of its cache, the size of the arena if there is one, and the file. -/
structure State where
  internalCacheHits : Nat := 0
  internalCacheHitUs : Nat := 0
  forwardedCount : Nat := 0
  hits : Nat := 0
  lookupWaitUs : Nat := 0
  sizeMb : Option Nat := none
  file : Option DnsStatTotals := none

/-- The wait for the arena is inside the time that the server measures. -/
structure Hit where
  waitUs : Nat
  tookUs : Nat
  inside : waitUs ≤ tookUs

namespace State

/-- `lookup` counts in 64 bits; the server counts the hit in 32 and takes as much of its time. -/
def countHit (state : State) (hit : Hit) : State :=
  { state with
    lookupWaitUs := (state.lookupWaitUs + hit.waitUs) % 2 ^ 64
    hits := (state.hits + 1) % 2 ^ 64
    internalCacheHits := (state.internalCacheHits + 1) % 2 ^ 32
    internalCacheHitUs := (state.internalCacheHitUs + hit.tookUs % 2 ^ 32) % 2 ^ 64 }

/-- `enable` without an arena; `allocated` is whether there is memory for it. -/
def enable (state : State) (sizeMb : Nat) (allocated : Bool) : State :=
  if allocated then
    { state with sizeMb := some (min (max sizeMb kMinCacheSizeMb) kMaxCacheSizeMb), hits := 0, lookupWaitUs := 0 }
  else state

def applyInternalCache (state : State) (enabled : Bool) (sizeMb : Nat) (allocated : Bool) : State :=
  if enabled = false then { state with sizeMb := none }
  else if state.sizeMb = some sizeMb then state
  else { state with sizeMb := none }.enable sizeMb allocated

def applyStatsTotals (state : State) (totals : DnsStatTotals) : State :=
  { state with
    internalCacheHits := min totals.hits DNS_COUNTER_MAX
    forwardedCount := min totals.forwards DNS_COUNTER_MAX
    internalCacheHitUs := totals.hitUsSum
    hits := min totals.hits DNS_COUNTER_MAX
    lookupWaitUs := totals.waitUs }

def totals (state : State) : DnsStatTotals :=
  ⟨state.internalCacheHits, state.forwardedCount, state.internalCacheHitUs, state.lookupWaitUs⟩

def load (state : State) : State := (state.file.map state.applyStatsTotals).getD state

end State

inductive Event
  | hit (hit : Hit)
  | forward
  | clear
  | applyInternalCache (enabled : Bool) (sizeMb : Nat) (allocated : Bool)
  | save
  /-- a save that leaves no readable file -/
  | spoil
  | load
  | reset (removed : Bool)
  /-- a new server, which starts its cache and reads the file if it is to -/
  | boot (enabled : Bool) (sizeMb : Nat) (allocated restores : Bool)

def step (state : State) : Event → Option State
  | .hit hit => if state.sizeMb = none then none else some (state.countHit hit)
  | .forward => some { state with forwardedCount := (state.forwardedCount + 1) % 2 ^ 32 }
  | .clear => some state
  | .applyInternalCache enabled sizeMb allocated => some (state.applyInternalCache enabled sizeMb allocated)
  | .save => some { state with file := some state.totals }
  | .spoil => some { state with file := none }
  | .load => some state.load
  | .reset removed => some { state.applyStatsTotals {} with file := if removed then none else state.file }
  | .boot enabled sizeMb allocated restores =>
    let started := State.applyInternalCache { file := state.file } enabled sizeMb allocated
    some (if restores then started.load else started)

def Step (state : State) (event : Event) (state' : State) : Prop := step state event = some state'

structure Together (state : State) : Prop where
  hits : state.sizeMb ≠ none → state.hits = state.internalCacheHits
  wait : state.lookupWaitUs ≤ state.internalCacheHitUs

/-- No count is at its end, the time of a hit and its sum fit, and no arena is created while hits are counted. -/
def Careful (state : State) : Event → Prop
  | .hit hit => state.internalCacheHits < DNS_COUNTER_MAX ∧ hit.waitUs ≤ hit.tookUs % 2 ^ 32 ∧
      state.internalCacheHitUs + hit.tookUs % 2 ^ 32 < 2 ^ 64
  | .forward => state.forwardedCount < DNS_COUNTER_MAX
  | .applyInternalCache enabled sizeMb allocated =>
    enabled = true → state.sizeMb ≠ some sizeMb → allocated = true → state.internalCacheHits = 0
  | _ => True

/-- The counters hang together, and so do those in the file. -/
structure Sound (state : State) : Prop extends Together state where
  file : ∀ totals, state.file = some totals → totals.waitUs ≤ totals.hitUsSum

variable {state state' : State} {event : Event}

theorem sound_start (file : Option DnsStatTotals)
    (hfile : ∀ totals, file = some totals → totals.waitUs ≤ totals.hitUsSum) : Sound { file } :=
  ⟨⟨fun hon ↦ absurd rfl hon, le_refl _⟩, hfile⟩

theorem Sound.applyInternalCache (hsound : Sound state) {enabled : Bool} {sizeMb : Nat} {allocated : Bool}
    (hcareful : Careful state (.applyInternalCache enabled sizeMb allocated)) :
    Sound (state.applyInternalCache enabled sizeMb allocated) := by
  unfold State.applyInternalCache State.enable
  split_ifs with henabled hsize hallocated
  · exact ⟨⟨fun hon ↦ absurd rfl hon, hsound.wait⟩, hsound.file⟩
  · exact hsound
  · have hnone := hcareful (by simpa using henabled) hsize hallocated
    exact ⟨⟨fun _ ↦ hnone.symm, Nat.zero_le _⟩, hsound.file⟩
  · exact ⟨⟨fun hon ↦ absurd rfl hon, hsound.wait⟩, hsound.file⟩

theorem Sound.load (hsound : Sound state) : Sound state.load := by
  unfold State.load
  cases hfile : state.file with
  | none => exact hsound
  | some totals => exact ⟨⟨fun _ ↦ rfl, hsound.file totals hfile⟩, hsound.file⟩

theorem Sound.countHit (hsound : Sound state) (hon : state.sizeMb ≠ none) {hit : Hit}
    (hcareful : Careful state (.hit hit)) :
    Sound (state.countHit hit) ∧ state.internalCacheHits ≤ (state.countHit hit).internalCacheHits := by
  obtain ⟨hcount, hwait, hsum⟩ := hcareful
  have hsame := hsound.hits hon
  have hbefore := hsound.wait
  have hcounted : (state.internalCacheHits + 1) % 2 ^ 32 = state.internalCacheHits + 1 :=
    Nat.mod_eq_of_lt (by unfold DNS_COUNTER_MAX at hcount; omega)
  have hcached : (state.hits + 1) % 2 ^ 64 = state.internalCacheHits + 1 := by
    rw [hsame]
    exact Nat.mod_eq_of_lt (by unfold DNS_COUNTER_MAX at hcount; omega)
  have hwaited : (state.lookupWaitUs + hit.waitUs) % 2 ^ 64 = state.lookupWaitUs + hit.waitUs :=
    Nat.mod_eq_of_lt (by omega)
  refine ⟨⟨⟨fun _ ↦ hcached.trans hcounted.symm, ?_⟩, hsound.file⟩, ?_⟩
  · dsimp only [State.countHit]
    rw [hwaited, Nat.mod_eq_of_lt hsum]
    omega
  · dsimp only [State.countHit]
    omega

theorem sound_step (hcareful : Careful state event) (hsound : Sound state) (hstep : Step state event state') :
    Sound state' := by
  unfold Step at hstep
  cases event with
  | hit hit =>
    rw [step] at hstep
    split_ifs at hstep with hoff
    cases hstep
    exact (hsound.countHit hoff hcareful).1
  | forward =>
    cases hstep
    exact ⟨⟨hsound.hits, hsound.wait⟩, hsound.file⟩
  | clear =>
    cases hstep
    exact hsound
  | applyInternalCache enabled sizeMb allocated =>
    cases hstep
    exact hsound.applyInternalCache hcareful
  | save =>
    cases hstep
    refine ⟨⟨hsound.hits, hsound.wait⟩, fun totals htotals ↦ ?_⟩
    cases htotals
    exact hsound.wait
  | spoil =>
    cases hstep
    exact ⟨⟨hsound.hits, hsound.wait⟩, fun _ hnone ↦ nomatch hnone⟩
  | load =>
    cases hstep
    exact hsound.load
  | reset removed =>
    cases hstep
    refine ⟨⟨fun _ ↦ rfl, le_refl _⟩, fun totals htotals ↦ ?_⟩
    split_ifs at htotals
    exact hsound.file totals htotals
  | boot enabled sizeMb allocated restores =>
    cases hstep
    have hstarted : Sound (State.applyInternalCache { file := state.file } enabled sizeMb allocated) :=
      (sound_start state.file hsound.file).applyInternalCache fun _ _ _ ↦ rfl
    split_ifs
    · exact hstarted.load
    · exact hstarted

end DhcpServer.Dns.PublishedStats
