import DhcpServer.Dhcp.Effects
import DhcpServer.Library.Run

/-!
# Runs of the DHCP server

The server as a transition system over the lease table, the refused addresses and the clock: time
passes, expired leases are removed, a datagram is handled. The receive loop of the source is one
order of these steps; nothing below depends on it. A call that never comes back from the scan of
`selectIp` is no step.
-/

namespace DhcpServer.Dhcp

open Library Option

inductive Input
  | tick (us : Nat)
  | expire
  | receive (net : Net) (datagram : Datagram)

/-- What an observer sees of a step: what came in, the second at which it was over, what went out. -/
structure Event where
  input : Input
  timeSec : Nat
  replies : List Reply

inductive Step (cfg : Config) : State → Event → State → Prop
  | tick (state : State) (us : Nat) :
      Step cfg state ⟨.tick us, (state.clockUs + us) / 1000000, []⟩
        { state with clockUs := state.clockUs + us }
  | expire (state : State) :
      Step cfg state ⟨.expire, state.clockUs / 1000000, []⟩ (removeExpiredLeases state)
  | receive {fuel : Nat} {net : Net} {datagram : Datagram} {state state' : State}
      {replies : List Reply} :
      handleDhcpMessage fuel cfg net datagram state = some (state', replies) →
      Step cfg state ⟨.receive net datagram, state'.clockUs / 1000000, replies⟩ state'

def Reachable (cfg : Config) (state : State) : Prop :=
  ∃ clockUs events, Run (Step cfg) (.start clockUs) events state

variable {cfg : Config} {state state' : State} {event : Event}

theorem Step.clockUs_le (hstep : Step cfg state event state') : state.clockUs ≤ state'.clockUs := by
  cases hstep with
  | tick us => exact Nat.le_add_right _ _
  | expire => exact le_rfl
  | receive hhandle =>
    unfold handleDhcpMessage at hhandle
    split at hhandle
    · cases hhandle
      exact le_rfl
    · exact dispatch_clockUs_le hhandle

variable {events : List Event}

theorem run_clockUs_le (hrun : Run (Step cfg) state events state') : state.clockUs ≤ state'.clockUs := by
  induction hrun with
  | nil => exact le_rfl
  | cons hstep _ ih => exact le_trans hstep.clockUs_le ih

/-- What a step can do to one entry: the clock only purges, a message does what `EntryStep` says. -/
theorem Step.entry (hstep : Step cfg state event state') (ip : UInt32) :
    state'.leases[ip]? = state.leases[ip]? ∨
      (state'.leases[ip]? = none ∧ ∃ lease : DhcpLease, state.leases[ip]? = some lease ∧
        lease.expiry ≤ currentTimeSec state'.clockUs) ∨
      ∃ net datagram message, event.input = .receive net datagram ∧
        admittedMessage cfg datagram = some message ∧
        EntryStep cfg net message state state'.clockUs ip state.leases[ip]? state'.leases[ip]? := by
  cases hstep with
  | tick us => exact .inl rfl
  | expire =>
    obtain heq | hexpired := removeExpiredLeases_purged state ip
    · exact .inl heq
    · exact .inr (.inl hexpired)
  | @receive fuel net datagram _ _ replies hhandle =>
    unfold handleDhcpMessage at hhandle
    split at hhandle
    · cases hhandle
      exact .inl rfl
    · rename_i message hmessage
      exact .inr (.inr ⟨net, datagram, message, rfl, hmessage, dispatch_entry hhandle ip⟩)

def perform (fuel : Nat) (cfg : Config) (state : State) : Input → Option (State × Event)
  | .tick us =>
    some ({ state with clockUs := state.clockUs + us }, ⟨.tick us, (state.clockUs + us) / 1000000, []⟩)
  | .expire => some (removeExpiredLeases state, ⟨.expire, state.clockUs / 1000000, []⟩)
  | .receive net datagram => do
    let (state', replies) ← handleDhcpMessage fuel cfg net datagram state
    return (state', ⟨.receive net datagram, state'.clockUs / 1000000, replies⟩)

def performAll (fuel : Nat) (cfg : Config) : State → List Input → Option (State × List Event)
  | state, [] => some (state, [])
  | state, input :: inputs => do
    let (state', event) ← perform fuel cfg state input
    let (last, events) ← performAll fuel cfg state' inputs
    return (last, event :: events)

theorem step_of_perform {fuel : Nat} {input : Input}
    (hperform : perform fuel cfg state input = some (state', event)) :
    Step cfg state event state' := by
  cases input with
  | tick us =>
    cases hperform
    exact .tick state us
  | expire =>
    cases hperform
    exact .expire state
  | receive net datagram =>
    simp only [perform, bind_eq_bind, bind_eq_some_iff, Prod.exists,
      pure_def, Option.some.injEq, Prod.mk.injEq] at hperform
    obtain ⟨after, replies, hhandle, rfl, rfl⟩ := hperform
    exact .receive hhandle

theorem perform_input {fuel : Nat} {input : Input}
    (hperform : perform fuel cfg state input = some (state', event)) : event.input = input := by
  cases input with
  | tick us =>
    cases hperform
    rfl
  | expire =>
    cases hperform
    rfl
  | receive net datagram =>
    simp only [perform, bind_eq_bind, bind_eq_some_iff, Prod.exists,
      pure_def, Option.some.injEq, Prod.mk.injEq] at hperform
    obtain ⟨after, replies, -, rfl, rfl⟩ := hperform
    rfl

theorem run_of_performAll {fuel : Nat} {inputs : List Input}
    (hperform : performAll fuel cfg state inputs = some (state', events)) :
    Run (Step cfg) state events state' := by
  induction inputs generalizing state events with
  | nil =>
    obtain ⟨rfl, rfl⟩ := Prod.mk.inj (Option.some.inj hperform)
    exact .nil state
  | cons input inputs ih =>
    simp only [performAll, bind_eq_bind, bind_eq_some_iff, Prod.exists,
      pure_def, Option.some.injEq, Prod.mk.injEq] at hperform
    obtain ⟨middle, event, hfirst, last, rest, hrest, rfl, rfl⟩ := hperform
    exact .cons (step_of_perform hfirst) (ih hrest)

theorem performAll_inputs {fuel : Nat} {inputs : List Input}
    (hperform : performAll fuel cfg state inputs = some (state', events)) :
    events.map Event.input = inputs := by
  induction inputs generalizing state events with
  | nil =>
    cases hperform
    rfl
  | cons input inputs ih =>
    simp only [performAll, bind_eq_bind, bind_eq_some_iff, Prod.exists,
      pure_def, Option.some.injEq, Prod.mk.injEq] at hperform
    obtain ⟨middle, event, hfirst, last, rest, hrest, rfl, rfl⟩ := hperform
    rw [List.map_cons, ih hrest, perform_input hfirst]

/-- A datagram as a client sends it: message type, hardware address, `ciaddr` and the options
after the message type. -/
def clientDatagram (msgType : UInt8) (mac : Mac) (ciaddr : UInt32) (options : Bytes) : Datagram :=
  let bytes := [kOptMsgType, 1, msgType] ++ options ++ [kOptEnd]
  { buf := fun i ↦
      if i < 12 then 0
      else if i < 16 then (wordBytes ciaddr).getD (i - 12) 0
      else if i < 28 then 0
      else if i < 34 then mac.toList.getD (i - 28) 0
      else if i < 236 then 0
      else if i < 240 then ([0x63, 0x82, 0x53, 0x63] : Bytes).getD (i - 236) 0
      else bytes.getD (i - 240) 0
    len := 240 + bytes.length }

def silentNet : Net := ⟨fun _ _ ↦ (none, 0), fun _ _ ↦ (false, 0)⟩

/-- The address `a.b.c.d` as `inet_pton` leaves it in a `uint32_t`. -/
def dotted (a b c d : UInt8) : UInt32 := readU32 (fun i ↦ ([a, b, c, d] : Bytes).getD i 0) 0

/-- A /24 with the pool 192.168.1.100 to 192.168.1.200 and one-day leases. -/
def homeConfig : Config where
  serverIp := dotted 192 168 1 1
  serverNetmask := dotted 255 255 255 0
  serverGateway := dotted 192 168 1 1
  rangeStart := dotted 192 168 1 100
  rangeEnd := dotted 192 168 1 200
  leaseTimeSec := 86400

def macA : Mac := #v[0x24, 0x0A, 0xC4, 0, 0, 0xA]
def macB : Mac := #v[0x24, 0x0A, 0xC4, 0, 0, 0xB]

def asking (msgType : UInt8) (mac : Mac) (ip : UInt32) : Input :=
  .receive silentNet (clientDatagram msgType mac 0 (ipOption kOptReqAddr ip))

end DhcpServer.Dhcp
