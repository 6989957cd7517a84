import DhcpServer.Library.Bytes
import DhcpServer.Library.Run

/-!
# Lookups in the external cache

The asynchronous half of `DnsCache`: `submitLookup` as the DNS task calls it, the worker task that
takes requests from the queue, and the datagrams by which it hands results back. A call of
`submitLookup` is not atomic. Marking the domain, sending to the queue, taking the oldest request
out and sending again are separate steps, and the worker may run between any two of them. One
action below is one such step.

`stopLookupWorker` runs only while the whole server is destroyed and is left out.
-/

namespace DhcpServer.Dns.ExternalCache

open Library

def kDomainBytes : Nat := 128
def kIpListBytes : Nat := 256
def kLookupQueueDepth : Nat := 16
def kMaxPendingDomains : Nat := 16
def kQueueStopToken : UInt8 := 0xFF

/-- `DnsServer::kMaxPendingForwards`: tokens are slot numbers of the DNS server. -/
def kMaxPendingForwards : Nat := 32

def kTypeA : UInt16 := 1
def kTypeAaaa : UInt16 := 28

structure Settings where
  enabled : Bool
  readEnabled : Bool
  url : Bytes
deriving DecidableEq

structure LookupRequest where
  token : UInt8
  type : UInt16
  domain : Bytes
deriving DecidableEq

structure LookupResult where
  token : UInt8
  hit : Bool
  ips : Bytes
deriving DecidableEq

/-- A result on its way to the DNS task. The datagram is `result`; `request` is the lookup it came
from, which the datagram does not say. -/
structure Delivery where
  request : LookupRequest
  result : LookupResult
deriving DecidableEq

/-- How far a call of `submitLookup` has come: its domain is dealt with, the queue was full, the
oldest request was taken out. -/
inductive Phase
  | marked
  | full
  | dropped
deriving DecidableEq

structure Submission where
  request : LookupRequest
  phase : Phase
deriving DecidableEq

/-- The worker between two steps; `delivering` holds the addresses found. -/
inductive Worker
  | idle
  | lookingUp (request : LookupRequest)
  | delivering (request : LookupRequest) (found : List Bytes)
  | stopped
deriving DecidableEq

structure State where
  settings : Settings
  pendingDomains : List Bytes
  /-- calls of `submitLookup` that have not returned -/
  calls : List Submission
  queue : List LookupRequest
  worker : Worker
  results : List Delivery
deriving DecidableEq

def State.start (settings : Settings) : State := ⟨settings, [], [], [], .idle, []⟩

def dropTrailingDot (name : Bytes) : Bytes := if name.getLast? = some 0x2E then name.dropLast else name

def normalizeDomain (domain : Bytes) : Bytes := dropTrailingDot (domain.map toLower)

/-- `none` says that the domain is already pending. A full table lets the lookup pass unmarked. -/
def markPending (domain : Bytes) (pendingDomains : List Bytes) : Option (List Bytes) :=
  if cString domain ∈ pendingDomains then none
  else if pendingDomains.length < kMaxPendingDomains then
    some (pendingDomains ++ [strncpy (kDomainBytes - 1) domain])
  else some pendingDomains

def clearPending (domain : Bytes) (pendingDomains : List Bytes) : List Bytes :=
  pendingDomains.erase (cString domain)

/-- `submitLookup` up to and including `markPending`. -/
def State.submitLookup (state : State) (domain : Bytes) (type : UInt16) (token : UInt8) : State :=
  if !state.settings.enabled || !state.settings.readEnabled || state.settings.url.isEmpty then state
  else
    let normal := normalizeDomain domain
    if normal.isEmpty then state
    else
      match markPending normal state.pendingDomains with
      | none => state
      | some pendingDomains =>
        let request := ⟨token, type, strncpy (kDomainBytes - 1) normal⟩
        { state with pendingDomains, calls := state.calls ++ [⟨request, .marked⟩] }

/-- The rest of `submitLookup`: the call with number `index` takes its next step. -/
def State.proceed (state : State) (index : Nat) (call : Submission) : State :=
  let returned := { state with calls := state.calls.eraseIdx index }
  let sent := { returned with queue := state.queue ++ [call.request] }
  match call.phase with
  | .marked =>
    if state.queue.length < kLookupQueueDepth then sent
    else { state with calls := state.calls.set index { call with phase := .full } }
  | .full =>
    match state.queue with
    | [] => returned
    | _ :: queue => { state with queue, calls := state.calls.set index { call with phase := .dropped } }
  | .dropped => if state.queue.length < kLookupQueueDepth then sent else returned

/-- The addresses of the type asked for: IPv6 texts are those with a colon. -/
def keepType (type : UInt16) (ips : List Bytes) : List Bytes :=
  ips.filter fun ip ↦ ip.contains 0x3A == (type == kTypeAaaa)

/-- What `doLookupAndParse` finds, when the service's reply lists `answers`. -/
def State.doLookupAndParse (state : State) (request : LookupRequest) (answers : List Bytes) : List Bytes :=
  if !state.settings.enabled || state.settings.url.isEmpty then []
  else if (normalizeDomain request.domain).isEmpty then []
  else keepType request.type (answers.filter fun ip ↦ !ip.isEmpty)

/-- The result datagram: the addresses joined with commas in a field of fixed size. -/
def lookupResult (request : LookupRequest) (found : List Bytes) : LookupResult where
  token := request.token
  hit := !found.isEmpty
  ips := strncpy (kIpListBytes - 1) (List.intercalate [0x2C] found)

inductive Action
  /-- a settings page writes the switches and the address of the service -/
  | configure (settings : Settings)
  /-- the DNS task calls `submitLookup` for the query in `slot` -/
  | submit (domain : Bytes) (type : UInt16) (slot : Fin kMaxPendingForwards)
  | proceed (index : Nat)
  | receive
  /-- the lookup comes back with the addresses of the reply, none on any failure -/
  | complete (answers : List Bytes)
  /-- the result datagram is sent; loopback may lose it -/
  | deliver (arrives : Bool)
  | drain
deriving DecidableEq

def State.step (state : State) : Action → Option State
  | .configure settings => some { state with settings }
  | .submit domain type slot => some (state.submitLookup domain type (UInt8.ofNat slot))
  | .proceed index => state.calls[index]?.map (state.proceed index)
  | .receive =>
    match state.worker, state.queue with
    | .idle, request :: queue =>
      if request.token = kQueueStopToken then some { state with queue, worker := .stopped }
      else some { state with queue, worker := .lookingUp request }
    | _, _ => none
  | .complete answers =>
    match state.worker with
    | .lookingUp request =>
      some { state with
        worker := .delivering request (state.doLookupAndParse request answers)
        pendingDomains := clearPending request.domain state.pendingDomains }
    | _ => none
  | .deliver arrives =>
    match state.worker with
    | .delivering request found =>
      let delivery : Delivery := ⟨request, lookupResult request found⟩
      some { state with
        worker := .idle
        results := if arrives then state.results ++ [delivery] else state.results }
    | _ => none
  | .drain =>
    match state.results with
    | _ :: results => some { state with results }
    | [] => none

def Step (state : State) (action : Action) (state' : State) : Prop := state.step action = some state'

def onSettings : Settings := ⟨true, true, [0x68]⟩

def letter (index : Nat) : Bytes := [UInt8.ofNat (0x61 + index)]

end DhcpServer.Dns.ExternalCache
