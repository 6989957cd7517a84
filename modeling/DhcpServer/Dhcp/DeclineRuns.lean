import DhcpServer.Dhcp.HoldDown

/-!
# The receive loop and the hour after a DECLINE

A turn of the receive loop removes what has expired and then handles the datagram. From the DECLINE on,
the address stays in the table of refusals for an hour as long as the other addresses refused meanwhile
are not as many as the table has places; the ones refused earlier within the same millisecond count with
them, because the table tells refusals apart by the millisecond. As long as it is there, its entry in the
lease table can only be the one another client held already, or one of a client with a binding.
-/

namespace DhcpServer.Dhcp

open Library DeclinedAddresses List Option

/-- What an observer sees of a turn: what came in, when it began and when it was over in milliseconds,
and what went out. -/
structure Turn where
  input : Input
  startMs : Nat
  endMs : Nat
  replies : List Reply

/-- A turn of `taskLoop`, where `none` is a scan that never comes back. -/
def turn (fuel : Nat) (cfg : Config) (state : State) (input : Input) : Option (State × Turn) :=
  let startMs := currentTimeMs state.clockUs
  match input with
  | .tick us =>
    let later := { state with clockUs := state.clockUs + us }
    some (later, ⟨.tick us, startMs, currentTimeMs later.clockUs, []⟩)
  | .expire => some (removeExpiredLeases state, ⟨.expire, startMs, startMs, []⟩)
  | .receive net datagram => do
    let (state', replies) ← handleDhcpMessage fuel cfg net datagram (removeExpiredLeases state)
    return (state', ⟨.receive net datagram, startMs, currentTimeMs state'.clockUs, replies⟩)

def Loop (cfg : Config) (state : State) (taken : Turn) (state' : State) : Prop :=
  ∃ fuel, turn fuel cfg state taken.input = some (state', taken)

def Turn.decline (cfg : Config) (taken : Turn) : Option Message :=
  match taken.input with
  | .receive _ datagram =>
    (admittedMessage cfg datagram).filter fun message ↦ message.msgType = kDhcpDecline
  | _ => none

def declinedOthers (cfg : Config) (ip : UInt32) (turns : List Turn) : Finset UInt32 :=
  (((turns.filterMap (Turn.decline cfg)).map Message.requestedIp).filter (· ≠ ip)).toFinset

/-- A client with a binding for the address, or another one than the client that refused it, with an
entry in force. -/
def Exempt (cfg : Config) (state : State) (message : Message) (mac : Mac) : Prop :=
  isStaticBindingForMac cfg mac message.requestedIp = true ∨
    mac ≠ message.chaddr ∧ ∃ lease, state.leases[message.requestedIp]? = some lease ∧ lease.mac = mac ∧
      currentTimeSec state.clockUs < lease.expiry

/-- Within an hour the address is offered and acknowledged only to exempt clients. -/
def HoldsDown (cfg : Config) (state : State) (message : Message) (sinceMs : Nat) (turns : List Turn) :
    Prop :=
  ∀ taken ∈ turns, taken.endMs < sinceMs + kDeclineHoldMs → ∀ reply ∈ taken.replies,
    reply.msgType = kDhcpOffer ∨ reply.msgType = kDhcpAck → reply.yiaddr = message.requestedIp →
    Exempt cfg state message reply.chaddr

variable {cfg : Config} {state state' : State} {taken : Turn} {message : Message} {ip : UInt32}

variable {turns : List Turn}

theorem mem_declinedOthers (hmem : taken ∈ turns)
    (hdecline : taken.decline cfg = some message) (hip : message.requestedIp ≠ ip) :
    message.requestedIp ∈ declinedOthers cfg ip turns := by
  rw [declinedOthers, List.mem_toFinset, mem_filter]
  exact ⟨mem_map_of_mem (mem_filterMap.mpr ⟨taken, hmem, hdecline⟩), by simpa using hip⟩

theorem Loop.of_decline (hloop : Loop cfg state taken state') (hdecline : taken.decline cfg = some message) :
    state' = handleDecline message (removeExpiredLeases state) ∧
      taken.startMs = currentTimeMs state.clockUs := by
  obtain ⟨fuel, hturn⟩ := hloop
  unfold Turn.decline at hdecline
  split at hdecline
  · rename_i net datagram hinput
    obtain ⟨hadmitted, htype⟩ := filter_eq_some_iff.mp hdecline
    simp only [turn, hinput, bind_eq_bind, bind_eq_some_iff, Prod.exists, Option.pure_def,
      Option.some.injEq, Prod.mk.injEq] at hturn
    obtain ⟨after, replies, hhandle, rfl, rfl⟩ := hturn
    rw [handleDhcpMessage, hadmitted] at hhandle
    exact ⟨dispatch_decline hhandle (by simpa using htype), rfl⟩
  · simp at hdecline

structure TurnSpec (cfg : Config) (state : State) (taken : Turn) (state' : State) : Prop where
  clock : state.clockUs ≤ state'.clockUs
  endMs : taken.endMs = currentTimeMs state'.clockUs
  declined : taken.decline cfg = none → state'.declined = state.declined
  mayHave : ∀ ip, RefusedUntil state ip state'.clockUs →
    (∀ reply ∈ taken.replies, reply.msgType = kDhcpOffer ∨ reply.msgType = kDhcpAck → reply.yiaddr = ip →
        MayHave cfg state ip reply.chaddr) ∧
      ∀ lease, state'.leases[ip]? = some lease → MayHave cfg state ip lease.mac

theorem mayHave_of_removeExpired {mac : Mac} (hmay : MayHave cfg (removeExpiredLeases state) ip mac) :
    MayHave cfg state ip mac := by
  rcases hmay with hbound | ⟨lease, hlease, rfl⟩
  · exact .inl hbound
  · exact mayHave_of_purged (removeExpiredLeases_purged state) hlease

theorem Loop.spec (hloop : Loop cfg state taken state') : TurnSpec cfg state taken state' := by
  obtain ⟨fuel, hturn⟩ := hloop
  unfold turn at hturn
  have hown {table : State} (hpurged : Purged (currentTimeSec state.clockUs) state.leases table.leases)
      (ip : UInt32) (lease : DhcpLease) (hlease : table.leases[ip]? = some lease) :
      MayHave cfg state ip lease.mac := mayHave_of_purged hpurged hlease
  split at hturn
  · cases hturn
    exact ⟨Nat.le_add_right _ _, rfl, fun _ ↦ rfl, fun ip _ ↦ ⟨by simp, hown (.refl _ _) ip⟩⟩
  · cases hturn
    exact ⟨le_rfl, rfl, fun _ ↦ rfl, fun ip _ ↦ ⟨by simp, hown (removeExpiredLeases_purged state) ip⟩⟩
  · rename_i net datagram hinput
    simp only [bind_eq_bind, bind_eq_some_iff, Prod.exists, Option.pure_def,
      Option.some.injEq, Prod.mk.injEq] at hturn
    obtain ⟨after, replies, hhandle, rfl, rfl⟩ := hturn
    unfold handleDhcpMessage at hhandle
    split at hhandle
    · cases hhandle
      exact ⟨le_rfl, rfl, fun _ ↦ rfl, fun ip _ ↦ ⟨by simp, hown (removeExpiredLeases_purged state) ip⟩⟩
    · rename_i message hmessage
      have hclock : (removeExpiredLeases state).clockUs ≤ after.clockUs := dispatch_clockUs_le hhandle
      refine ⟨hclock, rfl, fun hnone ↦ ?_, fun ip hrefused ↦ ?_⟩
      · have htype : message.msgType ≠ kDhcpDecline := by
          simpa [Turn.decline, hmessage] using hnone
        have hsame : after.declined = (removeExpiredLeases state).declined :=
          dispatch_declined hhandle htype
        exact hsame
      · obtain ⟨hreplies, hleases⟩ := dispatch_mayHave hhandle hrefused
        exact ⟨fun reply hreply hgrant hip ↦ mayHave_of_removeExpired (hreplies reply hreply hgrant hip),
          fun lease hlease ↦ mayHave_of_removeExpired (hleases lease hlease)⟩

theorem currentTimeMs_mono {first second : Nat} (hle : first ≤ second) :
    currentTimeMs first ≤ currentTimeMs second := Nat.div_le_div_right hle

/-- Every refusal in the table comes from a turn of the run. -/
structure Recorded (cfg : Config) (turns : List Turn) (state : State) : Prop where
  sound : Sound state.declined (currentTimeMs state.clockUs)
  refusals : ∀ entry ∈ state.declined.entries, entry.used → ∃ taken ∈ turns, ∃ message,
    taken.decline cfg = some message ∧ message.requestedIp = entry.ip ∧ taken.startMs = entry.sinceMs

theorem Loop.sound (hloop : Loop cfg state taken state')
    (hsound : Sound state.declined (currentTimeMs state.clockUs)) :
    Sound state'.declined (currentTimeMs state'.clockUs) := by
  cases hdecline : taken.decline cfg with
  | none =>
    rw [hloop.spec.declined hdecline]
    exact hsound.mono (currentTimeMs_mono hloop.spec.clock)
  | some message =>
    obtain ⟨rfl, -⟩ := hloop.of_decline hdecline
    exact hsound.add le_rfl

theorem Recorded.step (hrecorded : Recorded cfg turns state)
    (hloop : Loop cfg state taken state') : Recorded cfg (turns ++ [taken]) state' := by
  refine ⟨hloop.sound hrecorded.sound, fun entry hentry hused ↦ ?_⟩
  have hearlier (hold : entry ∈ state.declined.entries) : ∃ taken' ∈ turns ++ [taken], ∃ message,
      taken'.decline cfg = some message ∧ message.requestedIp = entry.ip ∧
        taken'.startMs = entry.sinceMs := by
    obtain ⟨taken', hmem, hrest⟩ := hrecorded.refusals entry hold hused
    exact ⟨taken', mem_append_left _ hmem, hrest⟩
  cases hdecline : taken.decline cfg with
  | none => exact hearlier (hloop.spec.declined hdecline ▸ hentry)
  | some message =>
    obtain ⟨rfl, hstart⟩ := hloop.of_decline hdecline
    rcases mem_of_add hentry hused with hold | rfl
    · exact hearlier hold
    · exact ⟨taken, by simp, message, hdecline, rfl, hstart⟩

theorem recorded_of_run {clockUs : Nat}
    (hrun : Run (Loop cfg) (.start clockUs) turns state) : Recorded cfg turns state := by
  have hstart : Recorded cfg [] (.start clockUs) := by
    refine ⟨sound_empty, fun entry hentry hused ↦ ?_⟩
    rw [eq_of_mem_replicate hentry] at hused
    simp at hused
  have hkeep (before : List Turn) (taken : Turn) (state state' : State)
      (hrecorded : Recorded cfg before state) (hloop : Loop cfg state taken state') :
      Recorded cfg (before ++ [taken]) state' := hrecorded.step hloop
  exact hrun.history hkeep hstart

/-- The address is held, and its entry belongs to a client that may have it. -/
structure Guarded (cfg : Config) (ip : UInt32) (sinceMs : Nat) (others : Finset UInt32)
    (exempt : Mac → Prop) (state : State) : Prop where
  sound : Sound state.declined (currentTimeMs state.clockUs)
  held : currentTimeMs state.clockUs < sinceMs + kDeclineHoldMs → Held state.declined ip sinceMs others
  entry : currentTimeMs state.clockUs < sinceMs + kDeclineHoldMs → ∀ mac, MayHave cfg state ip mac →
    exempt mac

variable {sinceMs : Nat} {others : Finset UInt32} {exempt : Mac → Prop}

theorem Guarded.refusedUntil (hguarded : Guarded cfg ip sinceMs others exempt state) {after : Nat}
    (hearly : currentTimeMs after < sinceMs + kDeclineHoldMs) : RefusedUntil state ip after := by
  intro clockUs hle hafter
  have hstate := currentTimeMs_mono hle
  have hclock := currentTimeMs_mono hafter
  exact (hguarded.held (by omega)).isDeclined (hguarded.sound.mono hstate) (by omega)

/-- A turn within the hour grants the address to exempt clients only, and the address stays guarded. -/
theorem Guarded.step (hguarded : Guarded cfg ip sinceMs others exempt state)
    (hfew : others.card < kCapacity) (hbinding : ∀ mac, isStaticBindingForMac cfg mac ip → exempt mac)
    (hothers : ∀ message, taken.decline cfg = some message → message.requestedIp ≠ ip →
      message.requestedIp ∈ others)
    (hloop : Loop cfg state taken state') :
    Guarded cfg ip sinceMs others exempt state' ∧
      (taken.endMs < sinceMs + kDeclineHoldMs → ∀ reply ∈ taken.replies,
        reply.msgType = kDhcpOffer ∨ reply.msgType = kDhcpAck → reply.yiaddr = ip →
        exempt reply.chaddr) := by
  have hclock := currentTimeMs_mono hloop.spec.clock
  have hmay (hearly : currentTimeMs state'.clockUs < sinceMs + kDeclineHoldMs) :=
    hloop.spec.mayHave ip (hguarded.refusedUntil hearly)
  refine ⟨⟨hloop.sound hguarded.sound, fun hearly ↦ ?_, fun hearly mac hmac ↦ ?_⟩,
    fun hearly reply hreply hgrant hip ↦ ?_⟩
  · have hheld := hguarded.held (by omega)
    cases hdecline : taken.decline cfg with
    | none => exact hloop.spec.declined hdecline ▸ hheld
    | some message =>
      obtain ⟨rfl, -⟩ := hloop.of_decline hdecline
      exact hheld.add hguarded.sound le_rfl hearly hfew (hothers message hdecline)
  · rcases hmac with hbound | ⟨lease, hlease, rfl⟩
    · exact hbinding mac hbound
    · exact hguarded.entry (by omega) lease.mac ((hmay hearly).2 lease hlease)
  · rw [hloop.spec.endMs] at hearly
    exact hguarded.entry (by omega) reply.chaddr ((hmay hearly).1 reply hreply hgrant hip)

theorem guarded_of_decline (hrecorded : Recorded cfg turns state)
    (hloop : Loop cfg state taken state') (hdecline : taken.decline cfg = some message)
    (hothers : ∀ earlier ∈ turns, earlier.startMs = taken.startMs → ∀ other,
      earlier.decline cfg = some other → other.requestedIp ≠ message.requestedIp →
      other.requestedIp ∈ others) :
    Guarded cfg message.requestedIp taken.startMs others (Exempt cfg state message) state' := by
  have hsound := hloop.sound hrecorded.sound
  obtain ⟨rfl, hstart⟩ := hloop.of_decline hdecline
  refine ⟨hsound, fun _ ↦ ?_, fun _ mac hmac ↦ ?_⟩
  · rw [hstart]
    refine held_add hrecorded.sound fun entry hentry hused hnow hip ↦ ?_
    obtain ⟨earlier, hmem, other, hother, hsame, hsince⟩ := hrecorded.refusals entry hentry hused
    rw [← hsame] at hip ⊢
    exact hothers earlier hmem (hsince.trans (hnow.trans hstart.symm)) other hother hip
  · rcases hmac with hbound | ⟨lease, hlease, rfl⟩
    · exact .inl hbound
    · right
      unfold handleDecline at hlease
      have hpurged := removeExpiredLeases_lookup state message.requestedIp
      split at hlease
      · rename_i old hold
        split_ifs at hlease with hmine
        · simp at hlease
        · obtain rfl := Option.some.inj (hold.symm.trans hlease)
          rw [hold] at hpurged
          obtain ⟨hbefore, hlive⟩ := filter_eq_some_iff.mp hpurged.symm
          exact ⟨hmine, old, hbefore, rfl, by simpa using hlive⟩
      · rename_i hnone
        simp [hnone] at hlease

/-- A refused address is held down for an hour, as long as fewer than 32 other addresses are refused
afterwards or before it in the same millisecond. -/
theorem declined_address_is_held_down {clockUs : Nat} {before after : List Turn} {state state' last : State}
    (hbefore : Run (Loop cfg) (.start clockUs) before state) (hloop : Loop cfg state taken state')
    (hdecline : taken.decline cfg = some message) (hafter : Run (Loop cfg) state' after last)
    (hfew : (declinedOthers cfg message.requestedIp
      (before.filter (·.startMs = taken.startMs) ++ after)).card < kCapacity) :
    HoldsDown cfg state message taken.startMs after := by
  intro later hlater hearly reply hreply hgrant hip
  have hothers {taken' : Turn} (hmem : taken' ∈ before.filter (·.startMs = taken.startMs) ++ after)
      (other : Message) (hother : taken'.decline cfg = some other)
      (hne : other.requestedIp ≠ message.requestedIp) :
      other.requestedIp ∈ declinedOthers cfg message.requestedIp
        (before.filter (·.startMs = taken.startMs) ++ after) := mem_declinedOthers hmem hother hne
  have hguarded := guarded_of_decline (recorded_of_run hbefore) hloop hdecline
    fun earlier hmem hsame ↦
      hothers (mem_append_left after (mem_filter.mpr ⟨hmem, decide_eq_true hsame⟩))
  obtain ⟨earlier, rest, rfl⟩ := append_of_mem hlater
  obtain ⟨middle, hfirst, hrest⟩ := hafter.split
  obtain ⟨next, hnext, -⟩ := hrest.uncons
  have hkeep (current : State) (taken' : Turn) (following : State)
      (hallowed : ∀ other, taken'.decline cfg = some other → other.requestedIp ≠ message.requestedIp →
        other.requestedIp ∈ declinedOthers cfg message.requestedIp
          (before.filter (·.startMs = taken.startMs) ++ (earlier ++ later :: rest)))
      (hcurrent : Guarded cfg message.requestedIp taken.startMs
        (declinedOthers cfg message.requestedIp
          (before.filter (·.startMs = taken.startMs) ++ (earlier ++ later :: rest)))
        (Exempt cfg state message) current)
      (hstep : Loop cfg current taken' following) :=
    (hcurrent.step hfew (fun _ ↦ .inl) hallowed hstep).1
  have hmiddle := hfirst.invariant hkeep
    (fun taken' hmem ↦ hothers (mem_append_right _ (mem_append_left _ hmem))) hguarded
  exact (hmiddle.step hfew (fun _ ↦ .inl) (hothers (mem_append_right _ hlater)) hnext).2 hearly
    reply hreply hgrant hip

def turnAll (fuel : Nat) (cfg : Config) : State → List Input → Option (State × List Turn)
  | state, [] => some (state, [])
  | state, input :: inputs => do
    let (state', taken) ← turn fuel cfg state input
    let (last, turns) ← turnAll fuel cfg state' inputs
    return (last, taken :: turns)

theorem turn_input {fuel : Nat} {input : Input} (hturn : turn fuel cfg state input = some (state', taken)) :
    taken.input = input := by
  unfold turn at hturn
  cases input with
  | tick us =>
    cases hturn
    rfl
  | expire =>
    cases hturn
    rfl
  | receive net datagram =>
    simp only [bind_eq_bind, bind_eq_some_iff, Prod.exists, Option.pure_def,
      Option.some.injEq, Prod.mk.injEq] at hturn
    obtain ⟨after, replies, -, rfl, rfl⟩ := hturn
    rfl

theorem loop_of_turn {fuel : Nat} {input : Input} (hturn : turn fuel cfg state input = some (state', taken)) :
    Loop cfg state taken state' := ⟨fuel, (turn_input hturn).symm ▸ hturn⟩

theorem run_of_turnAll {fuel : Nat} {inputs : List Input}
    (hturns : turnAll fuel cfg state inputs = some (state', turns)) : Run (Loop cfg) state turns state' := by
  induction inputs generalizing state turns with
  | nil =>
    obtain ⟨rfl, rfl⟩ := Prod.mk.inj (Option.some.inj hturns)
    exact .nil state
  | cons input inputs ih =>
    simp only [turnAll, bind_eq_bind, bind_eq_some_iff, Prod.exists, Option.pure_def,
      Option.some.injEq, Prod.mk.injEq] at hturns
    obtain ⟨middle, taken, hfirst, last, rest, hrest, rfl, rfl⟩ := hturns
    exact .cons (loop_of_turn hfirst) (ih hrest)

def refusing (mac : Mac) (host : UInt8) : Input := asking kDhcpDecline mac (dotted 192 168 1 host)

/-- The refused address is asked for at once. -/
theorem asked_address_is_held_down : ∃ (state : State) (message : Message) (turns : List Turn),
    message.requestedIp = dotted 192 168 1 100 ∧
      turns.map (fun taken ↦ taken.replies.map Reply.msgType) = [[kDhcpNak]] ∧
      HoldsDown homeConfig state message 0 turns := by
  have hreplay : ((turn 1 homeConfig (.start 0) (refusing macA 100)).any fun one ↦
      (turnAll 1 homeConfig one.1 [asking kDhcpRequest macB (dotted 192 168 1 100)]).any fun two ↦
        (one.2.decline homeConfig).any fun message ↦
          one.2.startMs == 0 && message.requestedIp == dotted 192 168 1 100 &&
          two.2.map (fun taken ↦ taken.replies.map Reply.msgType) == [[kDhcpNak]] &&
          decide ((declinedOthers homeConfig message.requestedIp two.2).card < kCapacity)) = true := by
    decide +kernel
  simp only [Option.any_eq_true, Bool.and_eq_true, beq_iff_eq, decide_eq_true_eq] at hreplay
  obtain ⟨⟨middle, taken⟩, hone, ⟨last, turns⟩, htwo, message, hdecline, ⟨⟨hstart, hip⟩, hreplies⟩, hfew⟩ :=
    hreplay
  have hnothing : Run (Loop homeConfig) (State.start 0) [] (State.start 0) := .nil _
  have hheld := declined_address_is_held_down hnothing (loop_of_turn hone) hdecline
    (run_of_turnAll htwo) (by simpa using hfew)
  rw [hstart] at hheld
  exact ⟨.start 0, message, turns, hip, hreplies, hheld⟩

def crowdedInputs : List Input :=
  refusing macA 100 :: (List.range 31).map fun i ↦ refusing macA (101 + i.toUInt8)

/-- The refusal of the first address is refreshed in that millisecond and stays in the first place, which
the next refusal takes. -/
theorem crowded_refusals_lose : ¬ ∀ (cfg : Config) (clockUs : Nat) (before after : List Turn)
    (taken : Turn) (state state' last : State) (message : Message),
    Run (Loop cfg) (.start clockUs) before state → Loop cfg state taken state' →
    taken.decline cfg = some message → isIpInRange cfg message.requestedIp = true →
    Run (Loop cfg) state' after last →
    (declinedOthers cfg message.requestedIp after).card < kCapacity →
    HoldsDown cfg state message taken.startMs after := by
  intro hclaim
  have hreplay : ((turnAll 1 homeConfig (.start 0) crowdedInputs).any fun one ↦
      (turn 1 homeConfig one.1 (refusing macA 100)).any fun two ↦
        (turnAll 1 homeConfig two.1 [refusing macA 150,
          asking kDhcpRequest macB (dotted 192 168 1 100)]).any fun three ↦
          (two.2.decline homeConfig).any fun message ↦
            message.requestedIp == dotted 192 168 1 100 && two.2.startMs == 0 &&
            decide (one.1.leases[dotted 192 168 1 100]? = none) &&
            decide ((declinedOthers homeConfig message.requestedIp three.2).card < kCapacity) &&
            three.2.any fun later ↦ later.endMs == 0 &&
              later.replies == [ackReply homeConfig macB 0 (dotted 192 168 1 100) 0]) = true := by
    decide +kernel
  simp only [Option.any_eq_true, List.any_eq_true, Bool.and_eq_true, beq_iff_eq, decide_eq_true_eq]
    at hreplay
  obtain ⟨⟨state, before⟩, hone, ⟨state', taken⟩, htwo, ⟨last, after⟩, hthree, message, hdecline,
    ⟨⟨⟨hip, hstart⟩, hfree⟩, hfew⟩, later, hlater, hend, hreplies⟩ := hreplay
  have hinRange : isIpInRange homeConfig message.requestedIp = true := by
    rw [hip]
    decide +kernel
  have hheld := hclaim homeConfig 0 before after taken state state' last message
    (run_of_turnAll hone) (loop_of_turn htwo) hdecline hinRange (run_of_turnAll hthree) hfew
  have hearly : later.endMs < taken.startMs + kDeclineHoldMs := by
    rw [hend, hstart]
    decide
  rcases hheld later hlater hearly _ (hreplies ▸ mem_singleton_self _) (.inr rfl) hip.symm with
    hbound | ⟨-, lease, hlease, -⟩
  · simp [isStaticBindingForMac, homeConfig] at hbound
  · rw [hip] at hlease
    exact absurd (hlease.symm.trans hfree) (by simp)

end DhcpServer.Dhcp
