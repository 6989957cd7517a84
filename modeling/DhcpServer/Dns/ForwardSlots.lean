import DhcpServer.Dns.ExternalCache

/-!
# Pending slots of the DNS server

A query that neither the local names nor the built-in cache answer takes a slot. The slot first
waits for the external cache, then, on a miss or after two seconds, for the upstream server. The
loop of the source handles due slots, cache results and one new query in this order; below each of
these is a step of its own and any order is allowed.

The DNS task does nothing else while a call of `submitLookup` is under way, so its steps require
that no call is open.
-/

namespace DhcpServer.Dns.ForwardSlots

open Library

open ExternalCache (LookupRequest Delivery kMaxPendingForwards normalizeDomain)

def kCacheWaitTimeoutMs : Nat := 2000
def kForwardTimeoutMs : Nat := 1000
def kDefaultTtlSec : Nat := 300

def kQueryBytes : Nat := 1024

structure Client where
  address : UInt32
  port : UInt16
deriving DecidableEq

structure PendingForward where
  active : Bool := false
  waitingCache : Bool := true
  fwdFd : Option Nat := none
  client : Client := ⟨0, 0⟩
  qid : UInt16 := 0
  qtype : UInt16 := 0
  qclass : UInt16 := 0
  domain : Bytes := []
  /-- `query` and `queryLen`; empty when the query is too large to buffer -/
  query : Bytes := []
  createdMs : Nat := 0
  sentMs : Nat := 0

structure State where
  slots : Nat → PendingForward
  cache : ExternalCache.State
  /-- `internalCache_.available()` -/
  internalAvailable : Bool
  /-- the reading of the clock the loop works with -/
  nowMs : Nat

def State.start (settings : ExternalCache.Settings) (internalAvailable : Bool) : State :=
  ⟨fun _ ↦ {}, .start settings, internalAvailable, 0⟩

/-- Where the content of an output comes from: the result of a lookup, the upstream server or the
DNS server itself. -/
inductive Source
  | lookup (request : LookupRequest)
  | upstream
  | server
deriving DecidableEq

inductive Reply
  | answer (ips : List Bytes) (ttl : Nat)
  | nxdomain
  | relayed (bytes : Bytes)

/-- What the DNS task does for the query in a slot: it stores addresses for the slot's domain and
type, or replies to the slot's client with the slot's id. -/
inductive Output
  | stored (slot : PendingForward) (ips : List Bytes) (ttl : Nat) (source : Source)
  | replied (slot : PendingForward) (reply : Reply) (source : Source)

def Output.slot : Output → PendingForward
  | .stored slot _ _ _ => slot
  | .replied slot _ _ => slot

def Output.source : Output → Source
  | .stored _ _ _ source => source
  | .replied _ _ source => source

def State.setSlot (state : State) (index : Nat) (slot : PendingForward) : State :=
  { state with slots := fun other ↦ if other = index then slot else state.slots other }

def State.allocPendingSlot (state : State) : Option Nat :=
  (List.range kMaxPendingForwards).find? fun index ↦ !(state.slots index).active

def State.freePendingSlot (state : State) (index : Nat) : State :=
  state.setSlot index
    { state.slots index with active := false, fwdFd := none, domain := [] }

def State.expirePendingSlot (state : State) (index : Nat) : State × List Output :=
  (state.freePendingSlot index, [.replied (state.slots index) .nxdomain .server])

/-- `opened` is the socket the query went out on, `none` when `socket` or `sendto` failed; the
answer is `none` when `startForward` returns false. -/
def State.startForward (state : State) (index : Nat) (opened : Option Nat) : Option State :=
  let slot := state.slots index
  if !slot.active || slot.query.isEmpty then none
  else opened.map fun fd ↦
    state.setSlot index
      { slot with fwdFd := some fd, waitingCache := false, sentMs := state.nowMs }

/-- The step both misses and timeouts take: ask upstream, or give up. -/
def State.forwardOrExpire (state : State) (index : Nat) (opened : Option Nat) : State × List Output :=
  match state.startForward index opened with
  | some forwarded => (forwarded, [])
  | none => state.expirePendingSlot index

/-- The comma-separated list of a result, empty pieces left out. -/
def splitIps (list : Bytes) : List Bytes :=
  let cut (byte : UInt8) : List Bytes → List Bytes
    | piece :: rest => if byte = 0x2C then [] :: piece :: rest else (byte :: piece) :: rest
    | [] => [[byte]]
  (list.foldr cut [[]]).filter fun piece ↦ !piece.isEmpty

def State.handleResult (state : State) (delivery : Delivery) (opened : Option Nat) : State × List Output :=
  let index := delivery.result.token.toNat
  let slot := state.slots index
  if kMaxPendingForwards ≤ index then (state, [])
  else if !slot.active || !slot.waitingCache then (state, [])
  else if !delivery.result.hit then state.forwardOrExpire index opened
  else
    let ips := splitIps delivery.result.ips
    if ips.isEmpty then state.forwardOrExpire index opened
    else
      let source := Source.lookup delivery.request
      let warmed := if state.internalAvailable then [Output.stored slot ips kDefaultTtlSec source] else []
      (state.freePendingSlot index, warmed ++ [.replied slot (.answer ips kDefaultTtlSec) source])

/-- A query as `parseQuery` reads it, with the datagram it came in. -/
structure Query where
  client : Client
  qid : UInt16
  qtype : UInt16
  qclass : UInt16
  domain : Bytes
  datagram : Bytes
deriving DecidableEq

def pendingForward (query : Query) (nowMs : Nat) : PendingForward where
  active := true
  client := query.client
  qid := query.qid
  qtype := query.qtype
  qclass := query.qclass
  domain := query.domain
  query := if query.datagram.length ≤ kQueryBytes then query.datagram else []
  createdMs := nowMs

/-- Whether a query in its new slot is looked up in the external cache first. -/
def State.checksCache (state : State) (query : Query) (degraded : Bool) : Bool :=
  !(pendingForward query state.nowMs).query.isEmpty && state.cache.settings.enabled &&
    state.cache.settings.readEnabled && !state.cache.settings.url.isEmpty && !degraded

/-- Step 3 of the query handler: a slot, then the external cache or, without it, upstream. -/
def State.handleQuery (state : State) (query : Query) (degraded : Bool) (opened : Option Nat) :
    State × List Output :=
  let slot := pendingForward query state.nowMs
  match state.allocPendingSlot with
  | none => (state, [.replied slot .nxdomain .server])
  | some index =>
    let taken := state.setSlot index slot
    if state.checksCache query degraded then
      ({ taken with
        cache := state.cache.submitLookup query.domain query.qtype (UInt8.ofNat index) }, [])
    else
      match taken.startForward index opened with
      | some forwarded => (forwarded, [])
      | none => (taken.freePendingSlot index, [.replied slot .nxdomain .server])

/-- A datagram on a forward socket and the addresses `parseForwardAnswer` reads in it. -/
structure UpstreamReply where
  bytes : Bytes
  answerIps : List Bytes
  answerTtl : Nat
deriving DecidableEq

/-- A readable forward socket; `none` is a failed `recvfrom`, and an empty datagram is dropped the
same way. -/
def State.handleUpstream (state : State) (index : Nat) (received : Option UpstreamReply) :
    State × List Output :=
  let slot := state.slots index
  let outputs :=
    match received.filter fun reply ↦ !reply.bytes.isEmpty with
    | none => []
    | some reply =>
      let ttl := if reply.answerTtl = 0 then kDefaultTtlSec else reply.answerTtl
      let learnt :=
        if !reply.answerIps.isEmpty && state.internalAvailable then
          [Output.stored slot reply.answerIps ttl .upstream]
        else []
      learnt ++ [.replied slot (.relayed reply.bytes) .upstream]
  (state.freePendingSlot index, outputs)

inductive Action
  | tick (ms : Nat)
  | setInternalCache (available : Bool)
  /-- a step of the external cache that is not the DNS task's own -/
  | cache (action : ExternalCache.Action)
  | cacheTimeout (index : Nat) (opened : Option Nat)
  | upstream (index : Nat) (received : Option UpstreamReply)
  | forwardTimeout (index : Nat)
  | result (opened : Option Nat)
  | query (query : Query) (degraded : Bool) (opened : Option Nat)
deriving DecidableEq

/-- `submitLookup` and `drainLookupResult` are called by the DNS task. -/
def ownAction : ExternalCache.Action → Bool
  | .submit _ _ _ => true
  | .drain => true
  | _ => false

def State.step (state : State) : Action → Option (State × List Output)
  | .tick ms => some ({ state with nowMs := state.nowMs + ms }, [])
  | .setInternalCache available => some ({ state with internalAvailable := available }, [])
  | .cache action =>
    if ownAction action then none
    else (state.cache.step action).map fun cache ↦ ({ state with cache }, [])
  | .cacheTimeout index opened =>
    let slot := state.slots index
    if state.cache.calls = [] ∧ index < kMaxPendingForwards ∧ slot.active ∧ slot.waitingCache ∧
        kCacheWaitTimeoutMs ≤ state.nowMs - slot.createdMs then
      some (state.forwardOrExpire index opened)
    else none
  | .upstream index received =>
    let slot := state.slots index
    if state.cache.calls = [] ∧ index < kMaxPendingForwards ∧ slot.active ∧ !slot.waitingCache ∧
        slot.fwdFd.isSome then
      some (state.handleUpstream index received)
    else none
  | .forwardTimeout index =>
    let slot := state.slots index
    if state.cache.calls = [] ∧ index < kMaxPendingForwards ∧ slot.active ∧ !slot.waitingCache ∧
        slot.fwdFd.isSome ∧ kForwardTimeoutMs ≤ state.nowMs - slot.sentMs then
      some (state.expirePendingSlot index)
    else none
  | .result opened =>
    match state.cache.results with
    | delivery :: results =>
      if state.cache.calls = [] then
        some ({ state with cache := { state.cache with results } }.handleResult delivery opened)
      else none
    | [] => none
  | .query query degraded opened =>
    if state.cache.calls = [] then some (state.handleQuery query degraded opened) else none

structure Event where
  action : Action
  outputs : List Output

def Step (state : State) (event : Event) (state' : State) : Prop :=
  state.step event.action = some (state', event.outputs)

def State.steps (state : State) : List Action → Option (State × List Event)
  | [] => some (state, [])
  | action :: actions => do
    let (next, outputs) ← state.step action
    let (last, events) ← next.steps actions
    return (last, ⟨action, outputs⟩ :: events)

theorem run_of_steps {state state' : State} {actions : List Action} {events : List Event}
    (hsteps : state.steps actions = some (state', events)) : Run Step state events state' := by
  induction actions generalizing state events with
  | nil =>
    obtain ⟨rfl, rfl⟩ := Prod.mk.inj (Option.some.inj hsteps)
    exact .nil state
  | cons action actions ih =>
    simp only [State.steps, Option.bind_eq_bind, Option.bind_eq_some_iff, Prod.exists,
      Option.pure_def, Option.some.injEq, Prod.mk.injEq] at hsteps
    obtain ⟨next, outputs, hstep, last, rest, hrest, rfl, rfl⟩ := hsteps
    exact .cons hstep (ih hrest)

end DhcpServer.Dns.ForwardSlots
